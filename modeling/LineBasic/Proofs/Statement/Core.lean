import LineBasic.Machine

namespace LineBasic

/-!
# Statements inside `IF`s

The body of an `IF` may be an `IF` again.  What is inside all of them is what the statement is for.

* `Statement.core`, `Statement.comesTo?` -- the statement inside the `IF`s of a statement, and
  whether it is its turn;
* `Statement.jump?` -- what a statement jumps to.
-/

variable {γ : Type}

namespace Statement

/-- The statement inside all the `IF`s of a statement. -/
def core : Statement → Statement
  | cond _ _ _ _ body => body.core
  | s => s

/-- Whether a statement is an `IF`. -/
def isCond : Statement → Bool
  | cond .. => true
  | _ => false

/-- The word and the target of a `GOTO` or `GOSUB`. -/
def jump? : Statement → Option (Keyword × Expr)
  | goto _ target => some (.GOTO, target)
  | gosub _ target => some (.GOSUB, target)
  | _ => none

/-- The statement that is to be carried out once the conditions of all `IF`s have been found to
    hold, with the machine that they leave; nothing if one of them does not hold or has no value. -/
def comesTo? [RandomSource γ] : Statement → Machine γ → Option (Statement × Machine γ)
  | cond _ lhs relation rhs body, m =>
    match lhs.eval m with
    | .error .. => none
    | .ok a m =>
      match rhs.eval m with
      | .error .. => none
      | .ok b m => if relation.holds a b then body.comesTo? m else none
  | s, m => some (s, m)

variable [RandomSource γ] {s body : Statement} {m m' : Machine γ}

/-- An `IF` whose sides have values comes to its body if the condition holds. -/
theorem comesTo?_cond {span : Span} {lhs rhs : Expr} {relation : Relation} {a b : Int16}
    {m₁ m₂ : Machine γ} (ha : lhs.eval m = .ok a m₁) (hb : rhs.eval m₁ = .ok b m₂) :
    (cond span lhs relation rhs s).comesTo? m =
      if relation.holds a b then s.comesTo? m₂ else none := by
  simp only [comesTo?, ha, hb]

/-- Only the statement inside all `IF`s is ever come to. -/
theorem eq_core_of_comesTo? (h : s.comesTo? m = some (body, m')) : body = s.core := by
  induction s generalizing m with
  | cond _ lhs relation rhs inner ih =>
    unfold comesTo? at h
    split at h
    · cases h
    · split at h
      · cases h
      · split at h
        · exact ih h
        · cases h
  | _ => cases h; rfl

omit [RandomSource γ] in
/-- What is inside all `IF`s is no `IF`. -/
theorem core_isCond (s : Statement) : s.core.isCond = false := by
  induction s with
  | cond _ _ _ _ body ih => exact ih
  | _ => rfl

/-- What a statement comes to is no `IF`. -/
theorem isCond_of_comesTo? (h : s.comesTo? m = some (body, m')) : body.isCond = false := by
  rw [eq_core_of_comesTo? h]
  exact s.core_isCond

end Statement

end LineBasic
