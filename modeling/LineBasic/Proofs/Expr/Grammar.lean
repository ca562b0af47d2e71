import LineBasic.Expr.Reader
import Mathlib.Data.List.Basic

namespace LineBasic.Expr

/-!
# The grammar of expressions

Which rows of tokens spell which expressions, level by level, without regard to any way of reading
them.

* `Level`, `Spelled` -- the grammar: sums of products of signed values, and what a value is;
* `Spelled.product`, `Spelled.sum`, `Spelled.sign` -- its rules by the operator that a token is;
* `opensValue`, `Spelled.cons` -- which tokens an expression can begin with;
* `Spelled.kind_ne` -- neither the end of a line nor `REM` nor `THEN` is part of an expression;
* `Spelled.join` -- an expression that begins with a sign can be taken for the rest of the one
  before it.
-/

/-- The levels of expressions, from those with the loosest operators to those without any. -/
inductive Level where
  /-- Products with `+` or `-` between them. -/
  | sum
  /-- Signed values with `*` or `/` between them. -/
  | product
  /-- A value with any number of signs before it. -/
  | signed
  /-- A number, a variable, a call, or an expression in parentheses. -/
  | value
  deriving DecidableEq

/-- The tokens of an expression of a level, in their order.  Each node has the columns of the token
    that it stands for, and both kinds of binary operators group to the left. -/
inductive Spelled : Level → List Token → Expr → Prop where
  | number {t : Token} {digits : String} (ht : t.kind = .number digits) :
      Spelled .value [t] (.int t.span (wrappedValue digits))
  | letter {t : Token} {x : Letter} (ht : t.kind = .letter x) : Spelled .value [t] (.var t.span x)
  | group {l r : Token} {ts : List Token} {e : Expr} (hl : l.kind = .leftParen)
      (he : Spelled .sum ts e) (hr : r.kind = .rightParen) :
      Spelled .value (l :: (ts ++ [r])) (.group l.span e)
  | rnd {f l r : Token} {ts : List Token} {e : Expr} (hf : f.kind = .word .RND)
      (hl : l.kind = .leftParen) (he : Spelled .sum ts e) (hr : r.kind = .rightParen) :
      Spelled .value (f :: l :: (ts ++ [r])) (.rnd f.span e)
  | usr {f l r : Token} {ts : List Token} {e : Expr} (hf : f.kind = .word .USR)
      (hl : l.kind = .leftParen) (he : Spelled .sum ts e) (hr : r.kind = .rightParen) :
      Spelled .value (f :: l :: (ts ++ [r])) (.usr f.span e)
  | usrAt {f l c r : Token} {ts us : List Token} {e a : Expr} (hf : f.kind = .word .USR)
      (hl : l.kind = .leftParen) (he : Spelled .sum ts e) (hc : c.kind = .comma)
      (ha : Spelled .sum us a) (hr : r.kind = .rightParen) :
      Spelled .value (f :: l :: (ts ++ c :: (us ++ [r]))) (.usrAt f.span e a)
  | usrWith {f l c d r : Token} {ts us vs : List Token} {e a v : Expr} (hf : f.kind = .word .USR)
      (hl : l.kind = .leftParen) (he : Spelled .sum ts e) (hc : c.kind = .comma)
      (ha : Spelled .sum us a) (hd : d.kind = .comma) (hv : Spelled .sum vs v)
      (hr : r.kind = .rightParen) :
      Spelled .value (f :: l :: (ts ++ c :: (us ++ d :: (vs ++ [r])))) (.usrWith f.span e a v)
  | ofValue {ts : List Token} {e : Expr} (he : Spelled .value ts e) : Spelled .signed ts e
  | negate {t : Token} {ts : List Token} {e : Expr} (ht : t.kind = .operator .minus)
      (he : Spelled .signed ts e) : Spelled .signed (t :: ts) (.unary t.span .negate e)
  | absolute {t : Token} {ts : List Token} {e : Expr} (ht : t.kind = .operator .plus)
      (he : Spelled .signed ts e) : Spelled .signed (t :: ts) (.unary t.span .absolute e)
  | ofSigned {ts : List Token} {e : Expr} (he : Spelled .signed ts e) : Spelled .product ts e
  | multiply {t : Token} {ls rs : List Token} {l r : Expr} (hl : Spelled .product ls l)
      (ht : t.kind = .operator .times) (hr : Spelled .signed rs r) :
      Spelled .product (ls ++ t :: rs) (.binary t.span .multiply l r)
  | divide {t : Token} {ls rs : List Token} {l r : Expr} (hl : Spelled .product ls l)
      (ht : t.kind = .operator .divide) (hr : Spelled .signed rs r) :
      Spelled .product (ls ++ t :: rs) (.binary t.span .divide l r)
  | ofProduct {ts : List Token} {e : Expr} (he : Spelled .product ts e) : Spelled .sum ts e
  | add {t : Token} {ls rs : List Token} {l r : Expr} (hl : Spelled .sum ls l)
      (ht : t.kind = .operator .plus) (hr : Spelled .product rs r) :
      Spelled .sum (ls ++ t :: rs) (.binary t.span .add l r)
  | subtract {t : Token} {ls rs : List Token} {l r : Expr} (hl : Spelled .sum ls l)
      (ht : t.kind = .operator .minus) (hr : Spelled .product rs r) :
      Spelled .sum (ls ++ t :: rs) (.binary t.span .subtract l r)

/-! ### The rules by operator -/

/-- The operation of a sign, if a token is one. -/
def signOp? : Kind → Option UnaryOp
  | .operator .minus => some .negate
  | .operator .plus => some .absolute
  | _ => none

/-- The signs of products are those of multiplication and division. -/
theorem productOp?_eq_some {k : Kind} {op : BinaryOp} (h : productOp? k = some op) :
    k = .operator .times ∧ op = .multiply ∨ k = .operator .divide ∧ op = .divide := by
  unfold productOp? at h
  split at h <;> simp_all

/-- The signs of sums are those of addition and subtraction. -/
theorem sumOp?_eq_some {k : Kind} {op : BinaryOp} (h : sumOp? k = some op) :
    k = .operator .plus ∧ op = .add ∨ k = .operator .minus ∧ op = .subtract := by
  unfold sumOp? at h
  split at h <;> simp_all

/-- The signs before a value are minus, which negates it, and plus, which takes its absolute
    value. -/
theorem signOp?_eq_some {k : Kind} {op : UnaryOp} (h : signOp? k = some op) :
    k = .operator .minus ∧ op = .negate ∨ k = .operator .plus ∧ op = .absolute := by
  unfold signOp? at h
  split at h <;> simp_all

namespace Spelled

variable {level : Level} {t : Token} {ts ls rs : List Token} {e l r : Expr}

/-- A product, one more factor and a sign between them spell a product. -/
theorem product {op : BinaryOp} (hl : Spelled .product ls l) (ht : productOp? t.kind = some op)
    (hr : Spelled .signed rs r) : Spelled .product (ls ++ t :: rs) (.binary t.span op l r) := by
  rcases productOp?_eq_some ht with ⟨hk, rfl⟩ | ⟨hk, rfl⟩
  · exact .multiply hl hk hr
  · exact .divide hl hk hr

/-- A sum, one more product and a sign between them spell a sum. -/
theorem sum {op : BinaryOp} (hl : Spelled .sum ls l) (ht : sumOp? t.kind = some op)
    (hr : Spelled .product rs r) : Spelled .sum (ls ++ t :: rs) (.binary t.span op l r) := by
  rcases sumOp?_eq_some ht with ⟨hk, rfl⟩ | ⟨hk, rfl⟩
  · exact .add hl hk hr
  · exact .subtract hl hk hr

/-- A sign before a signed value spells a signed value. -/
theorem sign {op : UnaryOp} (ht : signOp? t.kind = some op) (he : Spelled .signed ts e) :
    Spelled .signed (t :: ts) (.unary t.span op e) := by
  rcases signOp?_eq_some ht with ⟨hk, rfl⟩ | ⟨hk, rfl⟩
  · exact .negate hk he
  · exact .absolute hk he

end Spelled

/-! ### The first token -/

/-- Whether an expression can begin with a token. -/
def opensValue : Kind → Bool
  | .number _ | .letter _ | .leftParen | .word .RND | .word .USR | .operator .minus
  | .operator .plus => true
  | _ => false

/-- What begins an expression is no sign of a product. -/
theorem productOp?_of_opensValue {k : Kind} (h : opensValue k) : productOp? k = none := by
  unfold opensValue at h
  split at h <;> first | rfl | cases h

namespace Spelled

variable {level : Level} {ts us : List Token} {e e' : Expr}

/-- An expression begins with a token that can begin one. -/
theorem cons (h : Spelled level ts e) : ∃ t rest, ts = t :: rest ∧ opensValue t.kind := by
  induction h with
  | number ht | letter ht => exact ⟨_, _, rfl, by rw [ht]; rfl⟩
  | group hl => exact ⟨_, _, rfl, by rw [hl]; rfl⟩
  | rnd hf | usr hf | usrAt hf | usrWith hf => exact ⟨_, _, rfl, by rw [hf]; rfl⟩
  | negate ht | absolute ht => exact ⟨_, _, rfl, by rw [ht]; rfl⟩
  | ofValue _ ih | ofSigned _ ih | ofProduct _ ih => exact ih
  | multiply _ _ _ ih | divide _ _ _ ih | add _ _ _ ih | subtract _ _ _ ih =>
    obtain ⟨t, rest, rfl, ht⟩ := ih
    exact ⟨t, _, rfl, ht⟩

/-- No expression is spelled by no tokens. -/
theorem ne_nil (h : Spelled level ts e) : ts ≠ [] := by
  obtain ⟨t, rest, rfl, -⟩ := h.cons
  exact List.cons_ne_nil _ _

/-- Neither the end of the line nor `REM` nor `THEN` is part of an expression. -/
theorem kind_ne {k : Kind} (hk : k ∈ [.endOfLine, .word .REM, .word .THEN])
    (h : Spelled level ts e) :
    ∀ t ∈ ts, t.kind ≠ k := by
  simp only [List.mem_cons, List.not_mem_nil, or_false] at hk
  rcases hk with rfl | rfl | rfl <;> induction h <;> simp_all [or_imp]

/-- The end of the line is no part of an expression. -/
theorem kind_ne_endOfLine (h : Spelled level ts e) : ∀ t ∈ ts, t.kind ≠ .endOfLine :=
  h.kind_ne (by simp)

/-- An expression does not end with a comma. -/
theorem getLast_ne_comma (h : Spelled level ts e) : ∀ t ∈ ts.getLast?, t.kind ≠ .comma := by
  induction h with
  | number ht | letter ht => simp [ht]
  | group _ _ hr | rnd _ _ _ hr | usr _ _ _ hr => simp [List.getLast?_cons, hr]
  | usrAt _ _ _ _ _ hr | usrWith _ _ _ _ _ _ _ hr => simp [List.getLast?_cons, hr]
  | ofValue _ ih | ofSigned _ ih | ofProduct _ ih => exact ih
  | negate _ he ih | absolute _ he ih =>
    rw [List.getLast?_cons_of_ne_nil he.ne_nil]
    exact ih
  | multiply _ _ hr _ ih | divide _ _ hr _ ih | add _ _ hr _ ih | subtract _ _ hr _ ih =>
    rw [List.getLast?_append_cons, List.getLast?_cons_of_ne_nil hr.ne_nil]
    exact ih

/-! ### Adjacent expressions -/

/-- What is left of a product when the sign at its front is taken away is a product. -/
theorem of_sign {t : Token} {op : BinaryOp} (ht : sumOp? t.kind = some op) (h : Spelled level us e)
    (hlevel : level ≠ .sum) (hus : us = t :: ts) : ∃ e', Spelled .product ts e' := by
  induction h generalizing ts with
  | number hk | letter hk =>
    obtain ⟨rfl, -⟩ := List.cons.inj hus
    rw [hk] at ht
    cases ht
  | group hk | rnd hk | usr hk | usrAt hk | usrWith hk =>
    obtain ⟨rfl, -⟩ := List.cons.inj hus
    rw [hk] at ht
    cases ht
  | ofValue _ ih | ofSigned _ ih => exact ih (by simp) hus
  | negate _ he | absolute _ he =>
    obtain ⟨-, rfl⟩ := List.cons.inj hus
    exact ⟨_, .ofSigned he⟩
  | multiply hl hk hr ih | divide hl hk hr ih =>
    -- The sign is that of the first factor.
    obtain ⟨t', rest, rfl, -⟩ := hl.cons
    obtain ⟨rfl, rfl⟩ := List.cons.inj hus
    obtain ⟨e', he'⟩ := ih (by simp) rfl
    first
      | exact ⟨_, .multiply he' hk hr⟩
      | exact ⟨_, .divide he' hk hr⟩
  | ofProduct | add | subtract => exact absurd rfl hlevel

/-- **Adjacent expressions.**  An expression followed by one that begins with a sign spells a single
    expression, with the sign as an operator. -/
theorem join {t : Token} {op : BinaryOp} (h : Spelled .sum ts e) (ht : sumOp? t.kind = some op)
    (h' : Spelled .sum (t :: us) e') : ∃ e'', Spelled .sum (ts ++ t :: us) e'' := by
  generalize hlevel : Level.sum = level at h'
  generalize hvs : t :: us = vs at h'
  induction h' generalizing us with
  | ofProduct he' =>
    obtain ⟨e'', h''⟩ := of_sign ht he' (by simp) hvs.symm
    rw [← hvs]
    exact ⟨_, h.sum ht h''⟩
  | add hl hk hr ih | subtract hl hk hr ih =>
    -- The sign is that of the first term.
    obtain ⟨t', rest, rfl, -⟩ := hl.cons
    obtain ⟨rfl, rfl⟩ := List.cons.inj hvs
    obtain ⟨e'', h''⟩ := ih rfl rfl
    rw [List.cons_append, ← List.cons_append, ← List.append_assoc]
    first
      | exact ⟨_, .add h'' hk hr⟩
      | exact ⟨_, .subtract h'' hk hr⟩
  | _ => cases hlevel

end Spelled

end LineBasic.Expr
