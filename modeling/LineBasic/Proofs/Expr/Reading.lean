import LineBasic.Proofs.Expr.Grammar
import LineBasic.Proofs.Token.Row

namespace LineBasic.Expr

/-!
# Reading agrees with the grammar

The reader keeps what waits for a value in a list of frames.  Both directions go by what the
innermost frame lets a value grow to, its `level`:

* `operand_append` -- every expression of the grammar is read, whatever frames are open
  (completeness);
* `Opened`, `Completed` -- which tokens some frames stand for, and how a value closes them;
* `reading_sound` -- the tokens that a reader has taken spell the expression that it gives
  (soundness);
* `read_eq_ok_iff` -- both together: what the reader reads, and where it stops;
* `expression_grammar` -- a scanned line is an expression exactly if the grammar spells it, and then
  it is only one.
-/

/-- What a value to the right of some frames can at most grow to before the innermost is closed. -/
def level : List Frame → Level
  | [] | .group _ :: _ | .rnd _ :: _ | .usr _ :: _ | .usrAt _ _ :: _ | .usrWith _ _ _ :: _ => .sum
  | .sum _ _ _ :: _ => .product
  | .product _ _ _ :: _ | .sign _ _ :: _ => .signed

/-- Only behind a sign, be it that of a product or one before a value, is the next value at most a
    signed one. -/
theorem level_eq_signed {frames : List Frame} (h : level frames = .signed) :
    (∃ s op l outer, frames = .product s op l :: outer) ∨
      ∃ s op outer, frames = .sign s op :: outer := by
  unfold level at h
  split at h <;> simp_all

/-- Only behind the sign of a sum is the next value at most a product. -/
theorem level_eq_product {frames : List Frame} (h : level frames = .product) :
    ∃ s op l outer, frames = .sum s op l :: outer := by
  unfold level at h
  split at h <;> simp_all

/-- Whatever is open, the next value may have a sign. -/
theorem level_ne_value (frames : List Frame) : level frames ≠ .value := by
  unfold level
  split <;> simp

/-- Some tokens that do not begin with an operator of a product. -/
def NoFactor (ts : List Token) : Prop := ∀ t ∈ ts.head?, productOp? t.kind = none

/-- Some tokens that do not begin with an arithmetic operator, so that an expression before them is
    complete. -/
def NoTerm (ts : List Token) : Prop :=
  ∀ t ∈ ts.head?, productOp? t.kind = none ∧ sumOp? t.kind = none

/-- Where no arithmetic operator follows, none of a product does. -/
theorem NoTerm.noFactor {ts : List Token} (h : NoTerm ts) : NoFactor ts := fun t ht => (h t ht).1

/-- The sign of a sum is no sign of a product. -/
theorem noFactor_of_sumOp? {t : Token} {op : BinaryOp} (ht : sumOp? t.kind = some op)
    (ts : List Token) :
    NoFactor (t :: ts) := by
  rintro _ ⟨⟩
  rcases sumOp?_eq_some ht with ⟨hk, -⟩ | ⟨hk, -⟩ <;> rw [hk] <;> rfl

/-! ### Closing frames -/

/-- Where neither a sign nor a product waits, there is nothing to close. -/
theorem closeSigns_of_level {e : Expr} {frames : List Frame} (h : level frames ≠ .signed) :
    closeSigns e frames = (e, frames) := by
  unfold closeSigns
  split
  · exact absurd rfl h
  · rfl

/-- A value is left as it is where it can grow to a product. -/
theorem closeProduct_of_level {e : Expr} {frames : List Frame} (h : level frames ≠ .signed) :
    closeProduct e frames = (e, frames) := by
  rw [closeProduct, closeSigns_of_level h]
  split
  next heq =>
    obtain ⟨-, rfl⟩ := Prod.mk.inj heq
    exact absurd rfl h
  next => rfl

/-- A value is left as it is where it can grow to a sum. -/
theorem closeSum_of_level {e : Expr} {frames : List Frame} (h : level frames = .sum) :
    closeSum e frames = (e, frames) := by
  rw [closeSum, closeProduct_of_level (by simp [h])]
  split
  next heq =>
    obtain ⟨-, rfl⟩ := Prod.mk.inj heq
    cases h
  next => rfl

/-! ### Reading on after a value -/

variable {e e' : Expr} {frames frames' : List Frame} {t : Token} {ts rest : List Token}

/-- Only what a value is after its product has been closed matters for reading on. -/
theorem operator_congr_product (h : closeProduct e frames = closeProduct e' frames') :
    operator e frames ts = operator e' frames' ts := by
  have hsum : closeSum e frames = closeSum e' frames' := by rw [closeSum, closeSum, h]
  cases ts <;> simp only [operator, h, hsum]

/-- Unless an operator of a product follows, only what a value is after its sum has been closed
    matters. -/
theorem operator_congr_sum (h : closeSum e frames = closeSum e' frames') (hts : NoFactor ts) :
    operator e frames ts = operator e' frames' ts := by
  cases ts with
  | nil => simp only [operator, h]
  | cons t ts => simp only [operator, hts t rfl, h]

/-- An opening parenthesis opens a frame and is followed by a value. -/
theorem operand_leftParen (ht : t.kind = .leftParen) :
    operand frames (t :: ts) = operand (.group t.span :: frames) ts := by
  simp only [operand, ht]

/-- `RND` and a parenthesis open a frame and are followed by a value. -/
theorem operand_rnd {l : Token} (ht : t.kind = .word .RND) (hl : l.kind = .leftParen) :
    operand frames (t :: l :: ts) = operand (.rnd t.span :: frames) ts := by
  simp only [operand, openFunction, ht, hl, if_true]

/-- `USR` and a parenthesis open a frame and are followed by a value. -/
theorem operand_usr {l : Token} (ht : t.kind = .word .USR) (hl : l.kind = .leftParen) :
    operand frames (t :: l :: ts) = operand (.usr t.span :: frames) ts := by
  simp only [operand, openFunction, ht, hl, if_true]

/-- The sign of a product opens a frame with the value before it. -/
theorem operator_productOp {op : BinaryOp} (hf : level frames ≠ .signed)
    (ht : productOp? t.kind = some op) :
    operator e frames (t :: ts) = operand (.product t.span op e :: frames) ts := by
  simp only [operator, ht, closeProduct_of_level hf]

/-- The sign of a sum opens a frame with the sum before it. -/
theorem operator_sumOp {op : BinaryOp} (hf : level frames = .sum) (ht : sumOp? t.kind = some op) :
    operator e frames (t :: ts) = operand (.sum t.span op e :: frames) ts := by
  simp only [operator, noFactor_of_sumOp? ht ts t rfl, closeSum_of_level hf, ht]

/-- A closing parenthesis closes the frame of the one that it belongs to. -/
theorem operator_rightParen (hf : level frames = .sum) (ht : t.kind = .rightParen)
    (h : closeParen? e frames = some (e', frames')) :
    operator e frames (t :: ts) = operator e' frames' ts := by
  simp [operator, ht, productOp?, sumOp?, closeSum_of_level hf, h]

/-- A comma completes an argument and is followed by the next one. -/
theorem operator_comma (hf : level frames = .sum) (ht : t.kind = .comma)
    (h : nextArgument? e frames = some frames') :
    operator e frames (t :: ts) = operand frames' ts := by
  simp [operator, ht, productOp?, sumOp?, closeSum_of_level hf, h]

/-- With no frame left an expression is complete before anything but an operator. -/
theorem operator_nil (h : NoTerm ts) : operator e [] ts = .ok (e, ts) := by
  cases ts with
  | nil => rfl
  | cons t ts =>
    obtain ⟨hp, hs⟩ := h t rfl
    have hclose : closeSum e [] = (e, []) := rfl
    simp only [operator, hp, hs, hclose]
    split
    · rfl
    · rfl
    · rfl

/-! ### Completeness -/

/-- What a level asks of the frames before an expression and of the tokens after it, for the
    expression to be read as one of that level. -/
def Fits (frames : List Frame) (rest : List Token) : Level → Prop
  | .sum => level frames = .sum ∧ NoFactor rest
  | .product => level frames ≠ .signed
  | .signed | .value => True

/-- A token that is no sign of a product completes one. -/
theorem noFactor_cons {k : Kind} (ht : t.kind = k) (hk : productOp? k = none) :
    NoFactor (t :: ts) := by
  rintro _ ⟨⟩
  rw [ht, hk]

/-- **Completeness.**  The tokens of an expression are read, whatever frames are open, and the
    reader goes on with the expression as its value. -/
theorem operand_append {L : Level} (h : Spelled L ts e) (hfit : Fits frames rest L) :
    operand frames (ts ++ rest) = operator e frames rest := by
  induction h generalizing frames rest with
  | number ht | letter ht => simp only [List.cons_append, List.nil_append, operand, ht]
  | @group l r ts e hl _ hr ih =>
    simp only [List.cons_append, List.append_assoc, List.nil_append]
    rw [operand_leftParen hl, ih ⟨rfl, noFactor_cons hr rfl⟩]
    exact operator_rightParen rfl hr rfl
  | @rnd f l r ts e hf hl _ hr ih =>
    simp only [List.cons_append, List.append_assoc, List.nil_append]
    rw [operand_rnd hf hl, ih ⟨rfl, noFactor_cons hr rfl⟩]
    exact operator_rightParen rfl hr rfl
  | @usr f l r ts e hf hl _ hr ih =>
    simp only [List.cons_append, List.append_assoc, List.nil_append]
    rw [operand_usr hf hl, ih ⟨rfl, noFactor_cons hr rfl⟩]
    exact operator_rightParen rfl hr rfl
  | @usrAt f l c r ts us e a hf hl _ hc _ hr ihe iha =>
    simp only [List.cons_append, List.append_assoc, List.nil_append]
    -- A comma makes the frame of one argument that of two.
    rw [operand_usr hf hl, ihe ⟨rfl, noFactor_cons hc rfl⟩, operator_comma rfl hc rfl,
      iha ⟨rfl, noFactor_cons hr rfl⟩]
    exact operator_rightParen rfl hr rfl
  | @usrWith f l c d r ts us vs e a v hf hl _ hc _ hd _ hr ihe iha ihv =>
    simp only [List.cons_append, List.append_assoc, List.nil_append]
    rw [operand_usr hf hl, ihe ⟨rfl, noFactor_cons hc rfl⟩, operator_comma rfl hc rfl,
      iha ⟨rfl, noFactor_cons hd rfl⟩, operator_comma rfl hd rfl, ihv ⟨rfl, noFactor_cons hr rfl⟩]
    exact operator_rightParen rfl hr rfl
  | ofValue _ ih | ofSigned _ ih => exact ih trivial
  | negate ht _ ih | absolute ht _ ih =>
    simp only [List.cons_append, operand, ht]
    rw [ih trivial]
    exact operator_congr_product rfl
  | @multiply t ls rs l r _ ht _ ihl ihr | @divide t ls rs l r _ ht _ ihl ihr =>
    have hfactors : Fits frames (t :: (rs ++ rest)) .product := hfit
    rw [List.append_assoc, List.cons_append, ihl hfactors,
      operator_productOp hfit (by rw [ht]; rfl), ihr trivial]
    -- The product that has been read closes its frame.
    exact operator_congr_product (closeProduct_of_level hfit).symm
  | ofProduct _ ih => exact ih (by simp [Fits, hfit.1])
  | add _ ht _ ihl ihr | subtract _ ht _ ihl ihr =>
    obtain ⟨hf, hrest⟩ := hfit
    rw [List.append_assoc, List.cons_append, ihl ⟨hf, noFactor_cons ht rfl⟩,
      operator_sumOp hf (by rw [ht]; rfl), ihr (by simp [Fits, level])]
    -- Here the next token matters: an operator of a product would take the last term for a factor.
    exact operator_congr_sum (closeSum_of_level hf).symm hrest

/-! ### Soundness -/

/-- The tokens that some open frames stand for, in their order. -/
inductive Opened : List Token → List Frame → Prop where
  | nil : Opened [] []
  | sum {pre ls : List Token} {frames : List Frame} {l : Expr} {t : Token} {op : BinaryOp}
      (hpre : Opened pre frames) (hf : level frames = .sum) (hl : Spelled .sum ls l)
      (ht : sumOp? t.kind = some op) : Opened (pre ++ ls ++ [t]) (.sum t.span op l :: frames)
  | product {pre ls : List Token} {frames : List Frame} {l : Expr} {t : Token} {op : BinaryOp}
      (hpre : Opened pre frames) (hf : level frames ≠ .signed) (hl : Spelled .product ls l)
      (ht : productOp? t.kind = some op) :
      Opened (pre ++ ls ++ [t]) (.product t.span op l :: frames)
  | sign {pre : List Token} {frames : List Frame} {t : Token} {op : UnaryOp}
      (hpre : Opened pre frames) (ht : signOp? t.kind = some op) :
      Opened (pre ++ [t]) (.sign t.span op :: frames)
  | group {pre : List Token} {frames : List Frame} {l : Token} (hpre : Opened pre frames)
      (hl : l.kind = .leftParen) : Opened (pre ++ [l]) (.group l.span :: frames)
  | rnd {pre : List Token} {frames : List Frame} {f l : Token} (hpre : Opened pre frames)
      (hf : f.kind = .word .RND) (hl : l.kind = .leftParen) :
      Opened (pre ++ [f, l]) (.rnd f.span :: frames)
  | usr {pre : List Token} {frames : List Frame} {f l : Token} (hpre : Opened pre frames)
      (hf : f.kind = .word .USR) (hl : l.kind = .leftParen) :
      Opened (pre ++ [f, l]) (.usr f.span :: frames)
  | usrAt {pre ts : List Token} {frames : List Frame} {f l c : Token} {e : Expr}
      (hpre : Opened pre frames) (hf : f.kind = .word .USR) (hl : l.kind = .leftParen)
      (he : Spelled .sum ts e) (hc : c.kind = .comma) :
      Opened (pre ++ f :: l :: (ts ++ [c])) (.usrAt f.span e :: frames)
  | usrWith {pre ts us : List Token} {frames : List Frame} {f l c d : Token} {e a : Expr}
      (hpre : Opened pre frames) (hf : f.kind = .word .USR) (hl : l.kind = .leftParen)
      (he : Spelled .sum ts e) (hc : c.kind = .comma) (ha : Spelled .sum us a)
      (hd : d.kind = .comma) :
      Opened (pre ++ f :: l :: (ts ++ c :: (us ++ [d]))) (.usrWith f.span e a :: frames)

/-- The tokens `ts` stand for some open frames and, after them, for a value of a level. -/
def Completed (L : Level) (ts : List Token) (e : Expr) (frames : List Frame) : Prop :=
  ∃ pre mid, ts = pre ++ mid ∧ Opened pre frames ∧ Spelled L mid e

/-- Signs before a value belong to it. -/
theorem Completed.closeSigns (h : Completed .signed ts e frames) :
    Completed .signed ts (closeSigns e frames).1 (closeSigns e frames).2 ∧
      ∀ s op outer, (closeSigns e frames).2 ≠ .sign s op :: outer := by
  fun_induction Expr.closeSigns e frames with
  | case1 e s op frames ih =>
    obtain ⟨_, mid, rfl, hpre, he⟩ := h
    cases hpre with
    | @sign pre _ t _ hpre ht => exact ih ⟨pre, t :: mid, by simp, hpre, he.sign ht⟩
  | case2 e frames hne => exact ⟨h, hne⟩

/-- The first factors of a product belong to its last one. -/
theorem Completed.closeProduct (h : Completed .signed ts e frames) :
    Completed .product ts (closeProduct e frames).1 (closeProduct e frames).2 ∧
      level (Expr.closeProduct e frames).2 ≠ .signed := by
  obtain ⟨hclosed, hsign⟩ := h.closeSigns
  rw [Expr.closeProduct]
  split
  next e' s op l outer heq =>
    rw [heq] at hclosed
    obtain ⟨_, mid, rfl, hpre, he⟩ := hclosed
    cases hpre with
    | @product pre ls _ _ t _ hpre hf hl ht =>
      exact ⟨⟨pre, ls ++ t :: mid, by simp, hpre, hl.product ht he⟩, hf⟩
  next hne =>
    obtain ⟨pre, mid, hts, hpre, he⟩ := hclosed
    refine ⟨⟨pre, mid, hts, hpre, .ofSigned he⟩, fun hlevel => ?_⟩
    rcases level_eq_signed hlevel with ⟨s, op, l, outer, ho⟩ | ⟨s, op, outer, ho⟩
    · exact hne _ _ _ _ _ (Prod.ext rfl ho)
    · exact hsign s op outer ho

/-- The first terms of a sum belong to its last one. -/
theorem Completed.closeSum (h : Completed .signed ts e frames) :
    Completed .sum ts (closeSum e frames).1 (closeSum e frames).2 ∧
      level (Expr.closeSum e frames).2 = .sum := by
  obtain ⟨hclosed, hlevel⟩ := h.closeProduct
  rw [Expr.closeSum]
  split
  next e' s op l outer heq =>
    rw [heq] at hclosed
    obtain ⟨_, mid, rfl, hpre, he⟩ := hclosed
    cases hpre with
    | @sum pre ls _ _ t _ hpre hf hl ht =>
      exact ⟨⟨pre, ls ++ t :: mid, by simp, hpre, hl.sum ht he⟩, hf⟩
  next hne =>
    obtain ⟨pre, mid, hts, hpre, he⟩ := hclosed
    refine ⟨⟨pre, mid, hts, hpre, .ofProduct he⟩, ?_⟩
    cases hl : level (Expr.closeProduct e frames).2 with
    | sum => rfl
    | product =>
      obtain ⟨s, op, l, outer, ho⟩ := level_eq_product hl
      exact (hne _ _ _ _ _ (Prod.ext rfl ho)).elim
    | signed => exact absurd hl hlevel
    | value => exact absurd hl (level_ne_value _)

/-- A closing parenthesis after a complete sum gives a value. -/
theorem Completed.closeParen (h : Completed .sum ts e frames) (ht : t.kind = .rightParen)
    (hclose : closeParen? e frames = some (e', frames')) :
    Completed .signed (ts ++ [t]) e' frames' := by
  obtain ⟨_, mid, rfl, hpre, he⟩ := h
  unfold closeParen? at hclose
  split at hclose
  · cases hclose
    cases hpre with
    | group hpre hl => exact ⟨_, _, by simp, hpre, .ofValue (.group hl he ht)⟩
  · cases hclose
    cases hpre with
    | rnd hpre hf hl => exact ⟨_, _, by simp, hpre, .ofValue (.rnd hf hl he ht)⟩
  · cases hclose
    cases hpre with
    | usr hpre hf hl => exact ⟨_, _, by simp, hpre, .ofValue (.usr hf hl he ht)⟩
  · cases hclose
    cases hpre with
    | usrAt hpre hf hl hr hc => exact ⟨_, _, by simp, hpre, .ofValue (.usrAt hf hl hr hc he ht)⟩
  · cases hclose
    cases hpre with
    | usrWith hpre hf hl hr hc ha hd =>
      exact ⟨_, _, by simp, hpre, .ofValue (.usrWith hf hl hr hc ha hd he ht)⟩
  · cases hclose

/-- A comma after a complete sum opens the next argument. -/
theorem Completed.nextArgument (h : Completed .sum ts e frames) (ht : t.kind = .comma)
    (hnext : nextArgument? e frames = some frames') : Opened (ts ++ [t]) frames' := by
  obtain ⟨_, mid, rfl, hpre, he⟩ := h
  unfold nextArgument? at hnext
  split at hnext
  · cases hnext
    cases hpre with
    | usr hpre hf hl =>
      have := Opened.usrAt hpre hf hl he ht
      simpa using this
  · cases hnext
    cases hpre with
    | usrAt hpre hf hl hr hc =>
      have := Opened.usrWith hpre hf hl hr hc he ht
      simpa using this
  · cases hnext

/-- An expression that ends with no frame left is spelled by all the tokens before its end. -/
theorem finish_sound {v : Expr} {pre : List Token} (h : Completed .sum pre v frames)
    (hend : finish v frames ts = .ok (e, rest)) : ts = rest ∧ Spelled .sum pre e := by
  unfold finish at hend
  split at hend
  next hf =>
    subst hf
    cases hend
    obtain ⟨_, mid, rfl, hpre, he⟩ := h
    cases hpre
    exact ⟨rfl, by simpa using he⟩
  next => cases hend

/-- **Soundness.**  The tokens that were taken before and those that a reader takes spell the
    expression that it gives, and it stops only where no operator follows.  Which tokens the reader
    has behind it is said by the frames, and after a value by the value as well. -/
theorem reading_sound (ts : List Token) :
    (∀ pre frames e rest, Opened pre frames → operand frames ts = .ok (e, rest) →
      NoTerm rest ∧ ∃ mid, ts = mid ++ rest ∧ Spelled .sum (pre ++ mid) e) ∧
    (∀ pre f frames e rest, (∀ l : Token, l.kind = .leftParen → Opened (pre ++ [l]) frames) →
      openFunction f frames ts = .ok (e, rest) →
      NoTerm rest ∧ ∃ mid, ts = mid ++ rest ∧ Spelled .sum (pre ++ mid) e) ∧
    (∀ pre v frames e rest, Completed .signed pre v frames → operator v frames ts = .ok (e, rest) →
      NoTerm rest ∧ ∃ mid, ts = mid ++ rest ∧ Spelled .sum (pre ++ mid) e) := by
  induction ts with
  | nil =>
    refine ⟨fun _ _ _ _ _ h => ?_, fun _ _ _ _ _ _ h => ?_, fun pre v frames e rest hv h => ?_⟩
    · simp [operand] at h
    · simp [openFunction] at h
    · obtain ⟨rfl, he⟩ := finish_sound hv.closeSum.1 (by simpa [operator] using h)
      exact ⟨by simp [NoTerm], [], rfl, by simpa using he⟩
  | cons t ts ih =>
    obtain ⟨ihOperand, ihOpen, ihOperator⟩ := ih
    -- What is read after one more token, with that token in front.
    have step : ∀ {pre : List Token} {e : Expr} {rest : List Token},
        (NoTerm rest ∧ ∃ mid, ts = mid ++ rest ∧ Spelled .sum (pre ++ [t] ++ mid) e) →
        NoTerm rest ∧ ∃ mid, t :: ts = mid ++ rest ∧ Spelled .sum (pre ++ mid) e := by
      rintro pre e rest ⟨hrest, mid, rfl, he⟩
      exact ⟨hrest, t :: mid, rfl, by simpa using he⟩
    refine ⟨fun pre frames e rest hpre h => ?_, fun pre f frames e rest hpre h => ?_,
      fun pre v frames e rest hv h => ?_⟩
    · rw [operand] at h
      split at h
      next ht => exact step (ihOperand _ _ _ _ (.sign hpre (by rw [ht]; rfl)) h)
      next ht => exact step (ihOperand _ _ _ _ (.sign hpre (by rw [ht]; rfl)) h)
      next ht => exact step (ihOperator _ _ _ _ _ ⟨pre, [t], rfl, hpre, .ofValue (.number ht)⟩ h)
      next ht => exact step (ihOperator _ _ _ _ _ ⟨pre, [t], rfl, hpre, .ofValue (.letter ht)⟩ h)
      next ht => exact step (ihOperand _ _ _ _ (.group hpre ht) h)
      next ht => exact step (ihOpen _ _ _ _ _ (fun l hl => by simpa using Opened.rnd hpre ht hl) h)
      next ht => exact step (ihOpen _ _ _ _ _ (fun l hl => by simpa using Opened.usr hpre ht hl) h)
      next => cases h
    · rw [openFunction] at h
      split at h
      next ht => exact step (ihOperand _ _ _ _ (hpre t ht) h)
      next => cases h
    · rw [operator] at h
      split at h
      next op ht =>
        obtain ⟨⟨pre, mid, rfl, hpre, hl⟩, hf⟩ := hv.closeProduct
        exact step (ihOperand _ _ _ _ (.product hpre hf hl ht) h)
      next hp =>
      obtain ⟨hsum, hf⟩ := hv.closeSum
      generalize closeSum v frames = closed at h hsum hf
      obtain ⟨v', outer⟩ := closed
      have hend : sumOp? t.kind = none → finish v' outer (t :: ts) = .ok (e, rest) →
          NoTerm rest ∧ ∃ mid, t :: ts = mid ++ rest ∧ Spelled .sum (pre ++ mid) e := by
        intro hs h
        obtain ⟨rfl, he⟩ := finish_sound hsum h
        refine ⟨?_, [], rfl, by simpa using he⟩
        rintro _ ⟨⟩
        exact ⟨hp, hs⟩
      dsimp only at h
      split at h
      next op ht =>
        obtain ⟨pre, mid, rfl, hpre, hl⟩ := hsum
        exact step (ihOperand _ _ _ _ (.sum hpre hf hl ht) h)
      next hs =>
      split at h
      next ht =>
        split at h
        next hclose => exact step (ihOperator _ _ _ _ _ (hsum.closeParen ht hclose) h)
        next => exact hend hs h
      next ht =>
        split at h
        next hnext => exact step (ihOperand _ _ _ _ (hsum.nextArgument ht hnext) h)
        next => exact hend hs h
      next => exact hend hs h

/-! ### Whole expressions -/

/-- **What is read.**  The reader takes the tokens of an expression and stops before the first token
    that is no operator after it; it fails where no expression ends so. -/
theorem read_eq_ok_iff :
    read ts = .ok (e, rest) ↔ ∃ us, ts = us ++ rest ∧ Spelled .sum us e ∧ NoTerm rest := by
  constructor
  · intro h
    obtain ⟨hrest, us, hts, he⟩ := (reading_sound ts).1 [] [] e rest .nil h
    exact ⟨us, hts, he, hrest⟩
  · rintro ⟨us, rfl, he, hrest⟩
    rw [read, operand_append he ⟨rfl, hrest.noFactor⟩]
    exact operator_nil hrest

/-- The expression of a row of tokens is the only one. -/
theorem Spelled.unique (h : Spelled .sum ts e) (h' : Spelled .sum ts e') : e = e' := by
  have hread : read (ts ++ []) = .ok (e, []) := read_eq_ok_iff.2 ⟨ts, rfl, h, by simp [NoTerm]⟩
  have hread' : read (ts ++ []) = .ok (e', []) := read_eq_ok_iff.2 ⟨ts, rfl, h', by simp [NoTerm]⟩
  have hboth : (e, []) = (e', ([] : List Token)) := Except.ok.inj (hread.symm.trans hread')
  exact congrArg Prod.fst hboth

/-- An expression is followed by no operator where the line ends. -/
theorem noTerm_of_atEnd (h : Token.atEnd ts) : NoTerm ts := by
  rintro t ht
  cases ts with
  | nil => cases ht
  | cons t' ts =>
    cases ht
    have hk : t.kind = .endOfLine := by simpa [Token.atEnd, Token.isEndOfLine] using h
    rw [hk]
    exact ⟨rfl, rfl⟩

/-- The tokens of a scanned line, its number taken for any other: a row, and the end of the line. -/
theorem numbered_of_isRow (h : Token.IsRow ts) :
    ∃ row last, numbered ts = row ++ [last] ∧ (∀ t ∈ row, t.kind ≠ .endOfLine) ∧
      last.kind = .endOfLine := by
  cases h with
  | @numbered t last digits body ht _ _ hbody hlast =>
    obtain ⟨_, lexeme, line, column⟩ := t
    cases ht
    refine ⟨⟨.number digits, lexeme, line, column⟩ :: body, last, rfl, ?_, hlast⟩
    simpa using hbody.kind_ne_endOfLine
  | @plain last body hbody hlast =>
    refine ⟨body, last, ?_, hbody.kind_ne_endOfLine, hlast⟩
    cases body with
    | nil =>
      obtain ⟨_, lexeme, line, column⟩ := last
      cases hlast
      rfl
    | cons t body =>
      unfold numbered
      split
      next heq =>
        obtain ⟨rfl, -⟩ := List.cons.inj heq
        exact absurd rfl (hbody.kind_ne_lineNumber _ _ List.mem_cons_self)
      next => rfl

/-- A row of tokens is read as an expression exactly if all of it spells that expression. -/
theorem ofTokens_eq_ok_iff {row : List Token} {last : Token}
    (hnumbered : numbered ts = row ++ [last]) (hrow : ∀ t ∈ row, t.kind ≠ .endOfLine)
    (hlast : last.kind = .endOfLine) :
    ofTokens ts = .ok e ↔ Spelled .sum row e := by
  rw [ofTokens, hnumbered, bind_eq_ok]
  constructor
  · rintro ⟨⟨e', rest⟩, hread, hend⟩
    obtain ⟨us, hus, he, -⟩ := read_eq_ok_iff.1 hread
    obtain ⟨⟨⟩, hexpect, hpure⟩ := bind_eq_ok.1 hend
    have hatEnd : Token.atEnd rest := Token.atEnd_of_expectEnd hexpect
    cases hpure
    rw [← Token.eq_of_append_atEnd hrow he.kind_ne_endOfLine hatEnd hlast hus]
    exact he
  · intro he
    have hatEnd : Token.atEnd [last] := by simp [Token.atEnd, Token.isEndOfLine, hlast]
    refine ⟨(e, [last]), read_eq_ok_iff.2 ⟨row, rfl, he, noTerm_of_atEnd hatEnd⟩, ?_⟩
    simp only [Token.expectEnd, hatEnd, if_true]
    rfl

/-- **Expressions are those of the grammar.**  In every text that is scanned there is a row of
    tokens before the end of the line, the number of the line counting as a number, and the text is
    an expression exactly if that whole row spells it.  No row spells two expressions. -/
theorem expression_grammar {text : String} {tokens : List Token}
    (h : Token.scan text = .ok tokens) :
    ∃ row last, numbered tokens = row ++ [last] ∧ (∀ t ∈ row, t.kind ≠ .endOfLine) ∧
      last.kind = .endOfLine ∧ (∀ e, ofTokens tokens = .ok e ↔ Spelled .sum row e) ∧
      ∀ e e', Spelled .sum row e → Spelled .sum row e' → e = e' := by
  obtain ⟨row, last, hnumbered, hrow, hlast⟩ := numbered_of_isRow (Token.scan_isRow h)
  exact ⟨row, last, hnumbered, hrow, hlast, fun _ => ofTokens_eq_ok_iff hnumbered hrow hlast,
    fun _ _ => Spelled.unique⟩

/-- The tree of a product whose second factor is a sum in parentheses, with a sign in it. -/
theorem expression_grammar_product : ∃ tokens row last,
    Token.scan "2*(A+-3)" = .ok tokens ∧ numbered tokens = row ++ [last] ∧
      Spelled .sum row (.binary ⟨1, 2⟩ .multiply (.int ⟨0, 1⟩ 2) (.group ⟨2, 3⟩
        (.binary ⟨4, 5⟩ .add (.var ⟨3, 4⟩ ⟨0⟩) (.unary ⟨5, 6⟩ .negate (.int ⟨6, 7⟩ 3))))) := by
  have htree : ((Token.scan "2*(A+-3)").toOption.bind fun tokens => (ofTokens tokens).toOption)
      = some (.binary ⟨1, 2⟩ .multiply (.int ⟨0, 1⟩ 2) (.group ⟨2, 3⟩
        (.binary ⟨4, 5⟩ .add (.var ⟨3, 4⟩ ⟨0⟩) (.unary ⟨5, 6⟩ .negate (.int ⟨6, 7⟩ 3))))) := by
    decide +kernel
  cases hscan : Token.scan "2*(A+-3)" with
  | error d => simp [hscan, Except.toOption] at htree
  | ok tokens =>
    obtain ⟨row, last, hnumbered, -, -, hspelled, -⟩ := expression_grammar hscan
    refine ⟨tokens, row, last, rfl, hnumbered, (hspelled _).1 ?_⟩
    cases hread : ofTokens tokens with
    | error d => simp [hscan, hread, Except.toOption] at htree
    | ok e => simpa [hscan, hread, Except.toOption] using htree

end LineBasic.Expr
