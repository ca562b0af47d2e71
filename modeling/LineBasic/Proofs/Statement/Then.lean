import LineBasic.Proofs.Line.Grammar
import LineBasic.Proofs.Token.Blanked

namespace LineBasic

/-!
# Statements without `THEN`

A `THEN` is read behind the condition of an `IF` and nowhere else, and the same statement is read
without it.

* `Expr.Spelled.settled`, `Statement.Phrase.opening` -- how the condition before a `THEN` ends and
  how the statement behind it begins;
* `Expr.Spelled.operandsFollow`, `Statement.Phrase.operandsFollow` -- in both, a value stands behind
  every operator;
* `Statement.read_cond`, `Statement.read_cond_append` -- an `IF` is read as its condition and the
  statement inside;
* `Statement.read_without_then` -- the main result, by induction on the statement inside.
-/

open LineBasic.Expr (Spelled NoTerm)
open Token (Settled Opening OperandsFollow)

variable {t : Token} {ts us vs rest : List Token} {e : Expr}

/-! ### Around a `THEN` -/

namespace Expr

/-- An expression behind an operator ends with a number, a parenthesis, or a variable behind an
    operator. -/
theorem Spelled.settled {level : Level} {o : Token} {op : Operator} (h : Spelled level ts e)
    (ho : o.kind = .operator op) : Settled (o :: ts) := by
  induction h generalizing o op with
  | number ht => exact @Settled.sign [o] _ (by rw [ht]; rfl)
  | letter ht => exact @Settled.letter [] o _ _ _ ho ht
  | @group l r ts _ _ _ hr => exact @Settled.sign (o :: l :: ts) _ (by rw [hr]; rfl)
  | @rnd f l r ts _ _ _ _ hr | @usr f l r ts _ _ _ _ hr =>
    exact @Settled.sign (o :: f :: l :: ts) _ (by rw [hr]; rfl)
  | @usrAt f l c r ts us _ _ _ _ _ _ _ hr =>
    have hend : Settled ((o :: f :: l :: (ts ++ c :: us)) ++ [r]) := .sign (by rw [hr]; rfl)
    simpa using hend
  | @usrWith f l c d r ts us vs _ _ _ _ _ _ _ _ _ _ hr =>
    have hend : Settled ((o :: f :: l :: (ts ++ c :: (us ++ d :: vs))) ++ [r]) :=
      .sign (by rw [hr]; rfl)
    simpa using hend
  | ofValue _ ih | ofSigned _ ih | ofProduct _ ih => exact ih ho
  | negate ht _ ih | absolute ht _ ih => exact (ih ht).append [o]
  | @multiply t ls _ _ _ _ ht _ _ ih | @divide t ls _ _ _ _ ht _ _ ih | @add t ls _ _ _ _ ht _ _ ih
  | @subtract t ls _ _ _ _ ht _ _ ih =>
    exact (ih ht).append (o :: ls)

/-- An expression is a value that can stand behind an operator. -/
theorem Spelled.operandsFollow_cons {level : Level} (h : Spelled level ts e)
    (hts : OperandsFollow ts) (t : Token) :
    OperandsFollow (t :: ts) := by
  obtain ⟨u, us, rfl, hu⟩ := h.cons
  exact ⟨fun _ => ⟨u, rfl, hu⟩, hts⟩

/-- In an expression, a value stands behind every operator. -/
theorem Spelled.operandsFollow {level : Level} (h : Spelled level ts e) : OperandsFollow ts := by
  induction h with
  | number ht | letter ht => exact .single ht nofun
  | group hl _ hr ih => exact .cons hl nofun (ih.append (.single hr nofun))
  | rnd hf hl _ hr ih | usr hf hl _ hr ih =>
    exact .cons hf nofun (.cons hl nofun (ih.append (.single hr nofun)))
  | usrAt hf hl _ hc _ hr ih ih' =>
    have hend := ih'.append (.single hr nofun)
    exact .cons hf nofun (.cons hl nofun (ih.append (.cons hc nofun hend)))
  | usrWith hf hl _ hc _ hd _ hr ih ih' ih'' =>
    have hend := ih''.append (.single hr nofun)
    exact .cons hf nofun
      (.cons hl nofun (ih.append (.cons hc nofun (ih'.append (.cons hd nofun hend)))))
  | ofValue _ ih | ofSigned _ ih | ofProduct _ ih => exact ih
  | negate _ he ih | absolute _ he ih => exact he.operandsFollow_cons ih _
  | multiply _ _ hr ih ih' | divide _ _ hr ih ih' | add _ _ hr ih ih' | subtract _ _ hr ih ih' =>
    exact ih.append (hr.operandsFollow_cons ih' _)

end Expr

namespace Statement

/-- In a sequence operands follow every operator. -/
theorem Sequence.operandsFollow {α : Type} {single : Token → Option (List α)} {value : Expr → α}
    {as : List α} (hsingle : ∀ t as, single t = some as → ∀ op, t.kind ≠ .operator op)
    (h : Sequence single value ts as) :
    OperandsFollow ts := by
  induction h with
  | nil => trivial
  | single ht _ ih => exact .cons rfl (hsingle _ _ ht) ih
  | value he _ ih => exact he.operandsFollow.append ih

/-- There is no operator between the variables of an `INPUT`. -/
theorem Targets.operandsFollow {targets : List Target} (h : Targets ts targets) :
    OperandsFollow ts := by
  induction h with
  | one hx => exact .single hx nofun
  | cons hx hc _ ih => exact .cons hx nofun (.cons hc nofun ih)

/-- Where one kind may stand that is no operator, nothing has to follow. -/
theorem AtMostOne.operandsFollow {k : Kind} (h : AtMostOne k ts) (hk : ∀ op, k ≠ .operator op) :
    OperandsFollow ts := by
  cases h with
  | none => trivial
  | one ht => exact .single ht hk

/-- A part of a `PRINT` that is one token is no operator. -/
theorem printSingle_ne_operator (t : Token) (items : List PrintItem)
    (h : printSingle t = some items) (op : Operator) : t.kind ≠ .operator op := by
  intro hk
  simp [printSingle, hk] at h

/-- In a statement, a value stands behind every operator. -/
theorem Phrase.operandsFollow {s : Statement} (h : Phrase ts s) : OperandsFollow ts := by
  induction h with
  | clear ht | halt ht | ret ht | printNothing ht | listWhole ht => exact .single ht nofun
  | remark ht hc => exact .cons ht nofun (.single hc nofun)
  | goto ht he | gosub ht he | listOnward ht he => exact .cons ht nofun he.operandsFollow
  | assign hx hq he => exact .cons hx nofun (he.operandsFollow_cons he.operandsFollow _)
  | assignLet ht hx hq he =>
    exact .cons ht nofun (.cons hx nofun (he.operandsFollow_cons he.operandsFollow _))
  | printText ht hs hts hcolon =>
    have hitems := (hts.operandsFollow printSingle_ne_operator).append (hcolon.operandsFollow nofun)
    exact .cons ht nofun (.cons hs nofun hitems)
  | printValue ht he hts hcolon =>
    have hitems := he.operandsFollow.append (hts.operandsFollow printSingle_ne_operator)
    exact .cons ht nofun (hitems.append (hcolon.operandsFollow nofun))
  | listBetween ht hlow hc hhigh =>
    exact .cons ht nofun (hlow.operandsFollow.append (.cons hc nofun hhigh.operandsFollow))
  -- Behind the relation stands the first token of the other side, which begins a value.
  | cond ht hl ho hr hthen _ ih =>
    have hrhs := hr.operandsFollow.append ((hthen.operandsFollow nofun).append ih)
    obtain ⟨u, us, rfl, hu⟩ := hr.cons
    exact .cons ht nofun (hl.operandsFollow.append ⟨fun _ => ⟨u, rfl, hu⟩, hrhs⟩)
  | input ht hts => exact .cons ht nofun hts.operandsFollow
  | run ht hts _ =>
    refine .cons ht nofun (hts.operandsFollow fun t as h op hk => ?_)
    rw [(kind_of_runSingle h).1] at hk
    cases hk

/-- A statement begins with a word that begins one, or with a variable and an equals sign. -/
theorem Phrase.opening {s : Statement} (h : Phrase ts s) : Opening ts := by
  cases h with
  | assign hx hq => exact .letter hx hq
  | clear ht | halt ht | ret ht | remark ht | goto ht | gosub ht | assignLet ht | printNothing ht
  | printText ht | printValue ht | listWhole ht | listOnward ht | listBetween ht | cond ht
  | input ht | run ht =>
    exact .word ht (by decide)

/-! ### Reading an `IF` -/

/-- What an `IF` is read from: its condition, and behind it the statement inside. -/
theorem read_cond {span : Span} {lhs rhs : Expr} {r : Relation} {body : Statement}
    (hr : Remarked ts) (h : read ts = .ok (.cond span lhs r rhs body, rest)) :
    ∃ i ls o rs thens after, ts = i :: (ls ++ o :: (rs ++ (thens ++ after))) ∧ i.kind = .word .IF ∧
      span = i.span ∧ Spelled .sum ls lhs ∧ o.kind = .operator (.relation r) ∧ Spelled .sum rs rhs ∧
      AtMostOne (.word .THEN) thens ∧ read after = .ok (body, rest) := by
  obtain ⟨us, rfl, hus⟩ := read_sound hr h
  cases hus with
  | @cond i o ls rs thens ts _ _ _ _ hi =>
    rw [List.cons_append, read.eq_def] at h
    simp only [hi] at h
    split at h
    next => cases h
    next lhs' r' rhs' after hcondition =>
      obtain ⟨⟨body', rest'⟩, hbody, heq⟩ := map_eq_ok.1 h
      cases heq
      obtain ⟨ls', o', rs', thens', hts, hl, ho, hr, hthen⟩ := readCondition_sound hcondition
      exact ⟨i, ls', o', rs', thens', after, by rw [List.cons_append, hts], hi, rfl, hl, ho, hr,
        hthen, hbody⟩

/-- An `IF` is read from a condition and what begins a statement, with a `THEN` between them or
    without one. -/
theorem read_cond_append {i o : Token} {ls rs thens after : List Token} {lhs rhs : Expr}
    {r : Relation} {body : Statement} (hi : i.kind = .word .IF) (hl : Spelled .sum ls lhs)
    (ho : o.kind = .operator (.relation r)) (hr : Spelled .sum rs rhs)
    (hthen : AtMostOne (.word .THEN) thens) (hafter : Opening after)
    (hbody : read after = .ok (body, rest)) :
    read (i :: (ls ++ o :: (rs ++ (thens ++ after)))) =
      .ok (.cond i.span lhs r rhs body, rest) := by
  have hterm : NoTerm after := by
    cases hafter with
    | word ht | letter ht => exact noTerm_cons ht rfl rfl
  have hne : ∀ t ∈ after.head?, t.kind ≠ .word .THEN := by
    cases hafter with
    | word ht hw =>
      rintro _ ⟨⟩ hk
      rw [ht] at hk
      cases hk
      simp at hw
    | letter ht =>
      rintro _ ⟨⟩ hk
      rw [ht] at hk
      cases hk
  rw [read_of_readCondition hi (readCondition_complete hl ho hr hthen hterm hne), hbody]
  rfl

/-! ### Reading without a `THEN` -/

/-- An opening is one without a `THEN` behind its first token. -/
theorem opening_without_then (ht : t.kind = .word .THEN) (h : Opening (us ++ t :: vs)) :
    Opening (us ++ vs) := by
  generalize hall : us ++ t :: vs = all at h
  cases us with
  | nil =>
    subst hall
    cases h with
    | word hk hw =>
      cases ht.symm.trans hk
      simp at hw
    | letter hk => cases ht.symm.trans hk
  | cons u us =>
    cases h with
    | word hk hw =>
      obtain ⟨rfl, -⟩ := List.cons.inj hall
      exact .word hk hw
    -- An assignment opens with two tokens, and neither of them is a `THEN`.
    | letter hk hq =>
      obtain ⟨rfl, htail⟩ := List.cons.inj hall
      cases us with
      | nil =>
        obtain ⟨rfl, -⟩ := List.cons.inj htail
        cases ht.symm.trans hq
      | cons u' us =>
        obtain ⟨rfl, -⟩ := List.cons.inj htail
        exact .letter hk hq

/-- **Reading without a `THEN`.**  A `THEN` that is read stands between the condition of an `IF` and
    the statement inside, and without it the same statement is read. -/
theorem read_without_then {s : Statement} (hr : Remarked (us ++ t :: vs))
    (ht : t.kind = .word .THEN) (h : read (us ++ t :: vs) = .ok (s, rest))
    (hrest : ∀ t ∈ rest, t.kind ≠ .word .THEN) :
    Settled us ∧ Opening vs ∧ read (us ++ vs) = .ok (s, rest) := by
  induction s generalizing us with
  | cond span lhs r rhs body ih =>
    obtain ⟨i, ls, o, rs, thens, after, hall, hi, rfl, hl, ho, hrs, hthen, hbody⟩ := read_cond hr h
    have hsettled : Settled (i :: (ls ++ o :: rs)) := (hrs.settled ho).append (i :: ls)
    have hafter : Remarked after := by
      rw [hall] at hr
      have hin : Remarked ((i :: (ls ++ o :: (rs ++ thens))) ++ after) := by simpa using hr
      exact hin.of_append
    have hopen : Opening after := by
      obtain ⟨bs, rfl, hbs⟩ := read_sound hafter hbody
      exact hbs.opening.append_right rest
    -- The condition has no `THEN` in it, so this one is behind the condition.
    have hcondition : t ∉ i :: (ls ++ o :: rs) := by
      intro hmem
      simp only [List.mem_cons, List.mem_append] at hmem
      rcases hmem with rfl | hmem | rfl | hmem
      · cases ht.symm.trans hi
      · exact hl.kind_ne (by simp) t hmem ht
      · cases ht.symm.trans ho
      · exact hrs.kind_ne (by simp) t hmem ht
    have hall' : us ++ t :: vs = i :: (ls ++ o :: rs) ++ (thens ++ after) := by simp [hall]
    obtain ⟨ws, rfl, hws⟩ := Token.exists_append_of_notMem hcondition hall'
    have inside : ∀ {thens us}, AtMostOne (.word .THEN) thens → us ++ t :: vs = after →
        Settled (i :: (ls ++ o :: rs) ++ (thens ++ us)) ∧ Opening vs ∧
          read (i :: (ls ++ o :: rs) ++ (thens ++ us) ++ vs) =
          .ok (.cond i.span lhs r rhs body, rest) := by
      rintro thens us hthen rfl
      obtain ⟨hus, hvs, hread⟩ := ih hafter hbody
      have hread' := read_cond_append hi hl ho hrs hthen (opening_without_then ht hopen) hread
      exact ⟨(hus.append thens).append _, hvs, by simpa using hread'⟩
    cases hthen with
    | none => exact inside .none hws
    | @one a ha =>
      cases ws with
      | nil =>
        obtain ⟨rfl, rfl⟩ := List.cons.inj hws
        have hread := read_cond_append hi hl ho hrs .none hopen hbody
        exact ⟨by simpa using hsettled, hopen, by simpa using hread⟩
      | cons w ws =>
        obtain ⟨rfl, htail⟩ := List.cons.inj hws
        exact inside (.one ha) htail
  | _ =>
    obtain ⟨ts, hts, hphrase⟩ := read_sound hr h
    have hmem : t ∈ ts ++ rest := by
      rw [← hts]
      simp
    rcases List.mem_append.1 hmem with hin | hin
    · exact absurd ht (hphrase.kind_ne (.inr rfl) (by simp [word]) t hin)
    · exact absurd ht (hrest t hin)

end Statement

end LineBasic
