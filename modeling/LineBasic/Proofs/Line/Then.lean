import LineBasic.Proofs.Statement.Then
import LineBasic.Proofs.Text.Space

namespace LineBasic

/-!
# Lines without `THEN`

A line in which blanks stand for a `THEN` is the same entry, unless a variable before the `THEN` and
the letters behind it are a reserved word: `P` before `RUN`, `REM` or an assignment to `R`, and `I`
before an assignment to `F`.

* `Statement.ofTokens_without_then`, `Entry.ofTokens_without_then` -- statements and lines are read
  without a `THEN`;
* `Entry.ofText_blanked` -- the main result, for whatever is typed.
-/

open Token (IsRow Body Settled Opening OperandsFollow atEnd runTogether blanked)

variable {t last : Token} {us vs body : List Token}

/-- The statement of a line is read without a `THEN`. -/
theorem Statement.ofTokens_without_then {s : Statement} (hbody : Body body)
    (hlast : last.kind = .endOfLine) (hall : us ++ t :: vs = body ++ [last])
    (ht : t.kind = .word .THEN) (h : ofTokens (us ++ t :: vs) = .ok s) :
    Settled us ∧ Opening vs ∧ ofTokens (us ++ vs) = .ok s := by
  have hr := remarked_of_body hbody hlast
  rw [← hall] at hr
  obtain ⟨⟨s', rest⟩, hread, hmore⟩ := bind_eq_ok.1 h
  obtain ⟨⟨⟩, hexpect, hs⟩ := bind_eq_ok.1 hmore
  cases hs
  -- Nothing is left but the end of the line.
  obtain ⟨ts, hts, hphrase⟩ := read_sound hr hread
  have hts' := hall.symm.trans hts
  obtain rfl := Token.eq_of_append_atEnd hbody.kind_ne_endOfLine hphrase.kind_ne_endOfLine
    (Token.atEnd_of_expectEnd hexpect) hlast hts'
  obtain rfl : [last] = rest := List.append_cancel_left hts'
  obtain ⟨hus, hvs, hread'⟩ := read_without_then hr ht hread (by simp [hlast])
  exact ⟨hus, hvs, by simp [ofTokens, hread', hexpect, bind, Except.bind, pure, Except.pure]⟩

namespace Entry

/-- The entry of a line is read without a `THEN`. -/
theorem ofTokens_without_then {entry : Entry} (hrow : IsRow (us ++ t :: vs))
    (ht : t.kind = .word .THEN) (h : ofTokens (us ++ t :: vs) = .ok entry) :
    Settled us ∧ Opening vs ∧ ofTokens (us ++ vs) = .ok entry := by
  generalize hall : us ++ t :: vs = tokens at hrow h
  cases hrow with
  | @numbered n last digits body hn hne hdigits hbody hlast =>
    -- The number of the line is no `THEN`, and stays in front.
    cases us with
    | nil =>
      obtain ⟨rfl, -⟩ := List.cons.inj hall
      cases ht.symm.trans hn
    | cons u us =>
      obtain ⟨rfl, htail⟩ := List.cons.inj hall
      have htail : us ++ t :: vs = body ++ [last] := htail
      simp only [ofTokens, hn] at h
      split at h
      next => cases h
      next number hnumber =>
        split at h
        next hend =>
          cases h
          cases body with
          | nil =>
            obtain ⟨-, hlast'⟩ := (List.append_eq_singleton_iff.1 htail).resolve_right (by simp)
            obtain ⟨rfl, -⟩ := List.cons.inj hlast'
            cases ht.symm.trans hlast
          | cons b body =>
            exact absurd (Statement.kind_of_atEnd hend)
              (hbody.kind_ne_endOfLine b List.mem_cons_self)
        next hend =>
          split at h
          next s hs =>
            cases h
            rw [← htail] at hs hend
            obtain ⟨hus, hvs, hread⟩ := Statement.ofTokens_without_then hbody hlast htail ht hs
            refine ⟨hus.append [u], hvs, ?_⟩
            obtain ⟨b, us, rfl⟩ := List.exists_cons_of_ne_nil hus.ne_nil
            have hend' : ¬ atEnd (b :: us ++ vs) := hend
            simp only [List.cons_append] at hread hend' ⊢
            simp only [ofTokens, hn, hnumber, hend', hread]
            rfl
          next => cases h
  | @plain last body hbody hlast =>
    rw [ofTokens_plain hbody hlast] at h
    split at h
    next s hs =>
      cases h
      rw [← hall] at hs
      obtain ⟨hus, hvs, hread⟩ := Statement.ofTokens_without_then hbody hlast hall ht hs
      refine ⟨hus, hvs, ?_⟩
      obtain ⟨b, us, rfl⟩ := List.exists_cons_of_ne_nil hus.ne_nil
      rw [List.cons_append] at hread ⊢
      rw [ofTokens]
      split
      next digits hb =>
        have hmem : b ∈ body ++ [last] := by simp [← hall]
        rcases List.mem_append.1 hmem with hin | hin
        · exact absurd hb (hbody.kind_ne_lineNumber digits b hin)
        · rw [List.mem_singleton.1 hin, hlast] at hb
          cases hb
      next => rw [hread]
    next => cases h

/-- In a line, a value stands behind every operator. -/
theorem operandsFollow_of_ofTokens {tokens : List Token} {entry : Entry} (hrow : IsRow tokens)
    (h : ofTokens tokens = .ok entry) : OperandsFollow tokens := by
  obtain ⟨row, last, rfl, -, hlast⟩ := hrow.exists_eq_append
  have hspelled : OperandsFollow row := by
    cases ofTokens_sound hrow h with
    | delete ht => exact .single ht nofun
    | store ht _ _ hs => exact .cons ht nofun hs.operandsFollow
    | direct hs => exact hs.operandsFollow
  exact hspelled.append (.single hlast nofun)

/-- The text of a line with blanks for a word, without the space at its end. -/
theorem trimmed_blanked {text : String} {front covers bs rest : List Char}
    (hcs : Text.trimEnd text.toList = front ++ (covers ++ rest)) (hcolumn : t.column = front.length)
    (hbs : ∀ more, Token.blankOut t.lexeme.length (covers ++ more) = bs ++ more)
    (hrest : rest ≠ []) :
    trimmed (blanked t text) = .ofList (front ++ (bs ++ rest)) := by
  obtain ⟨tail, htext, htail⟩ := Text.exists_eq_trimEnd_append text.toList
  obtain ⟨init, z, rfl⟩ := (List.eq_nil_or_concat rest).resolve_left hrest
  have hz : Text.isSpace z = false := Text.getLast?_trimEnd text.toList z (by rw [hcs]; simp)
  have hblanked : (blanked t text).toList = front ++ (bs ++ init) ++ z :: tail := by
    rw [hcs, List.append_assoc, List.append_assoc] at htext
    rw [blanked, String.toList_ofList, htext, hcolumn, List.take_left, List.drop_left, hbs]
    simp
  rw [trimmed, hblanked, Text.trimEnd_append_cons hz,
    Text.trimEnd_of_allSpace (List.all_eq_true.2 htail)]
  simp only [List.append_assoc, List.concat_eq_append]

/-- **`THEN` is optional.**  Where a typed text is an entry and has a `THEN` in it, the text with
    blanks for the `THEN` is the same entry, down to the columns, and no other; but where a variable
    before the `THEN` runs into what stands behind it, the text with blanks is no entry at all. -/
theorem ofText_blanked {text : String} {entry : Entry} {before behind : List Token}
    (h : ofText text = .ok entry) (hscan : Token.scan (trimmed text) = .ok (before ++ t :: behind))
    (ht : t.kind = .word .THEN) (entry' : Entry) :
    ofText (blanked t text) = .ok entry' ↔ entry' = entry ∧ runTogether before behind = false := by
  obtain ⟨tokens, hscan', hread⟩ := ofText_eq_ok_iff.1 h
  rw [hscan] at hscan'
  cases hscan'
  obtain ⟨hbefore, hopen, hread'⟩ := ofTokens_without_then (Token.scan_isRow hscan) ht hread
  obtain ⟨front, covers, bs, rest, hcs, hcolumn, hbs, hrest, hjoins⟩ :=
    Token.scan_blanked (Token.isTrimmed_trimEnd _) hscan ht (by simp) hbefore hopen
  rw [Token.JoinsTo] at hjoins
  rw [ofText_eq_ok_iff, trimmed_blanked hcs hcolumn hbs hrest]
  split at hjoins
  next htogether =>
    -- Whatever is scanned then, it is no line, as a line has a value behind every operator.
    constructor
    · rintro ⟨tokens, htokens, hentry⟩
      exact absurd (operandsFollow_of_ofTokens (Token.scan_isRow htokens) hentry)
        (hjoins tokens htokens)
    · rintro ⟨-, hapart⟩
      rw [htogether] at hapart
      cases hapart
  next hapart =>
    rw [hjoins]
    constructor
    · rintro ⟨tokens, htokens, hentry⟩
      cases htokens
      rw [hread'] at hentry
      cases hentry
      exact ⟨rfl, by simpa using hapart⟩
    · rintro ⟨rfl, -⟩
      exact ⟨_, rfl, hread'⟩

/-- `P` stays a variable before `RETURN`, although `PR` is a word. -/
theorem ofText_blanked_preturn :
    let entry : Entry :=
  .store 10 (.cond ⟨3, 5⟩ (.var ⟨6, 7⟩ ⟨0⟩) .equal (.var ⟨8, 9⟩ ⟨15⟩) (.ret ⟨16, 22⟩))
    ofText "10 if A=P t HEN RETURN" = .ok entry ∧ ofText "10 if A=P       RETURN" = .ok entry := by
  intro entry
  have hentry : ofText "10 if A=P t HEN RETURN" = .ok entry := by decide +kernel
  have hscan : Token.scan (trimmed "10 if A=P t HEN RETURN") =
      .ok ([⟨.lineNumber "10", "10", some 10, 0⟩, ⟨.word .IF, "if", some 10, 3⟩,
        ⟨.letter ⟨0⟩, "A", some 10, 6⟩,
        ⟨.operator (.relation .equal), "=", some 10, 7⟩, ⟨.letter ⟨15⟩, "P", some 10, 8⟩] ++
        ⟨.word .THEN, "tHEN", some 10, 10⟩ ::
        [⟨.word .RETURN, "RETURN", some 10, 16⟩, ⟨.endOfLine, "\n", some 10, 22⟩]) := by
    decide +kernel
  have hblanked : blanked ⟨.word .THEN, "tHEN", some 10, 10⟩ "10 if A=P t HEN RETURN" =
      "10 if A=P       RETURN" := by
    decide +kernel
  exact ⟨hentry, hblanked ▸ (ofText_blanked hentry hscan rfl entry).2 ⟨rfl, by decide +kernel⟩⟩

/-- `P` and `RUN` need the `THEN` between them: without it they are `PR` and two variables. -/
theorem then_needed_run : ∃ text entry before t behind, ofText text = .ok entry ∧
    Token.scan (trimmed text) = .ok (before ++ t :: behind) ∧ t.kind = .word .THEN ∧
      ∀ entry', ofText (blanked t text) ≠ .ok entry' := by
  refine ⟨"IF A=P THEN RUN",
    .direct (.cond ⟨0, 2⟩ (.var ⟨3, 4⟩ ⟨0⟩) .equal (.var ⟨5, 6⟩ ⟨15⟩) (.run ⟨12, 15⟩ [])),
    [⟨.word .IF, "IF", none, 0⟩, ⟨.letter ⟨0⟩, "A", none, 3⟩,
      ⟨.operator (.relation .equal), "=", none, 4⟩, ⟨.letter ⟨15⟩, "P", none, 5⟩],
    ⟨.word .THEN, "THEN", none, 7⟩, [⟨.word .RUN, "RUN", none, 12⟩, ⟨.endOfLine, "\n", none, 15⟩],
    by decide +kernel, by decide +kernel, rfl, fun entry' h => ?_⟩
  have hrefused : (ofText (blanked ⟨.word .THEN, "THEN", none, 7⟩ "IF A=P THEN RUN")).isOk =
      false := by
    decide +kernel
  rw [h] at hrefused
  cases hrefused

end Entry

end LineBasic
