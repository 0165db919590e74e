import RavBot.Lib.Substitution
import RavBot.Tools.ToolChain

/-!
# Templates in one pass

A template has tokens that stand for results.  What it is to become is said by one scan, which reads the tokens of
the template and copies the results (`singlePass`).  The code goes over the template twice, and the second
time it goes over the result of the call before as well (`resolveString_eq`).

A token begins with two braces and has no other ones before its end, so no token begins inside another one,
and all three scans find the tokens that stand in the template.  What may come on top are tokens that the
text of a result makes, alone or together with the letters around it (`MakesNoToken`).
-/

open List

namespace RavBot.Tools.ChainTemplateEngine

open RavBot.Lib

/-! ## Tokens -/

inductive Token where
  | prev
  | step (digits : List Char)
deriving DecidableEq, Repr

namespace Token

def opening : List Char := "\x7b\x7bsteps[".toList

def closing : List Char := "].result\x7d\x7d".toList

def text : Token → List Char
  | prev => prevToken
  | step digits => opening ++ (digits ++ closing)

def IsToken : Token → Prop
  | prev => True
  | step digits => digits ≠ [] ∧ ∀ c ∈ digits, c.isDigit

def IsStep (token : Token) : Prop := token ≠ prev ∧ token.IsToken

/-- The number of a step is an `int`. -/
def InRange : Token → Prop
  | prev => True
  | step digits => Text.ofDigits digits ≤ 2147483647

theorem opens_text {token : Token} (h : token.IsToken) : Opens '\x7b' token.text := by
  cases token with
  | prev => exact ⟨"prev.result\x7d\x7d".toList, rfl, by decide, by decide⟩
  | step digits =>
    refine ⟨"steps[".toList ++ (digits ++ closing), rfl, cons_ne_nil _ _, ?_⟩
    rw [mem_append, mem_append, not_or, not_or]
    refine ⟨by decide, fun hmem => ?_, by decide⟩
    exact absurd (h.2 _ hmem) (by decide)

theorem not_beginsInside {token token' : Token} (h : token.IsToken) (h' : token'.IsToken) :
    ¬ BeginsInside token'.text token.text := (opens_text h).not_beginsInside (opens_text h')

theorem not_comparable_prev {token : Token} (h : token.IsStep) : ¬ Comparable prev.text token.text := by
  cases token with
  | prev => exact absurd rfl h.1
  | step digits =>
    rintro (hpre | hpre)
    · exact absurd (cons_prefix_cons.1 (cons_prefix_cons.1 (cons_prefix_cons.1 hpre).2).2).1
        (by decide)
    · exact absurd (cons_prefix_cons.1 (cons_prefix_cons.1 (cons_prefix_cons.1 hpre).2).2).1
        (by decide)

end Token

/-! ## Reading -/

/-- The token `{{prev.result}}` at the beginning of a text. -/
def prevAt? (s : List Char) : Option Token := if prevToken.isPrefixOf s then some .prev else none

def stepAt? (s : List Char) : Option Token := (stepToken? s).map fun token => .step token.1

def tokenAt? (s : List Char) : Option Token := (prevAt? s).or (stepAt? s)

theorem reads_prevAt : Reads prevAt? Token.text (· = .prev) where
  sound := by
    intro s token h
    rw [prevAt?] at h
    split at h
    · next hpre =>
        cases h
        exact ⟨rfl, isPrefixOf_iff_prefix.1 hpre⟩
    · cases h
  complete := by
    rintro token rfl s
    rw [prevAt?, if_pos]
    exact isPrefixOf_iff_prefix.2 (prefix_append _ s)
  not_nil := by
    rintro token rfl
    decide

theorem stepToken?_eq (s : List Char) :
    stepToken? s =
      if Token.opening.isPrefixOf s ∧ (s.drop Token.opening.length).takeWhile Char.isDigit ≠ [] ∧
          Token.closing.isPrefixOf (s.drop (Token.opening.length +
            ((s.drop Token.opening.length).takeWhile Char.isDigit).length)) then
        some ((s.drop Token.opening.length).takeWhile Char.isDigit, Token.opening.length +
          ((s.drop Token.opening.length).takeWhile Char.isDigit).length + Token.closing.length)
      else none := rfl

variable {digits s : List Char}

theorem takeWhile_digits_append (h : ∀ c ∈ digits, c.isDigit) (s : List Char) :
    (digits ++ (Token.closing ++ s)).takeWhile Char.isDigit = digits := by
  rw [takeWhile_append_of_pos h, show Token.closing = ']' :: ".result\x7d\x7d".toList from rfl]
  exact append_nil digits

theorem stepToken?_append (hne : digits ≠ []) (h : ∀ c ∈ digits, c.isDigit)
    (s : List Char) :
    stepToken? (Token.text (.step digits) ++ s) = some (digits, (Token.text (.step digits)).length) := by
  have htext : Token.text (.step digits) ++ s = Token.opening ++ (digits ++ (Token.closing ++ s)) := by
    rw [Token.text, append_assoc, append_assoc]
  have hlength : (Token.text (.step digits)).length =
      Token.opening.length + digits.length + Token.closing.length := by
    rw [Token.text, length_append, length_append, Nat.add_assoc]
  rw [htext, hlength, stepToken?_eq, drop_left, takeWhile_digits_append h, ← drop_drop,
    drop_left, drop_left, if_pos]
  refine ⟨?_, hne, ?_⟩
  · exact isPrefixOf_iff_prefix.2 (prefix_append _ _)
  · exact isPrefixOf_iff_prefix.2 (prefix_append _ s)

theorem stepToken?_eq_some {n : Nat} (h : stepToken? s = some (digits, n)) :
    (Token.step digits).IsToken ∧ (Token.step digits).text <+: s := by
  rw [stepToken?_eq] at h
  split at h
  · next hall =>
      obtain ⟨hopening, hne, hclosing⟩ := hall
      obtain ⟨hdigits, -⟩ := Prod.mk.inj (Option.some.inj h)
      rw [hdigits] at hne hclosing
      refine ⟨⟨hne, fun c hc => ?_⟩, ?_⟩
      · rw [← hdigits] at hc
        exact mem_takeWhile_imp hc
      · obtain ⟨rest, rfl⟩ := isPrefixOf_iff_prefix.1 hopening
        rw [drop_left] at hdigits
        obtain ⟨rest', rfl⟩ : digits <+: rest := hdigits ▸ takeWhile_prefix _
        rw [← drop_drop, drop_left, drop_left] at hclosing
        obtain ⟨last, rfl⟩ := isPrefixOf_iff_prefix.1 hclosing
        refine ⟨last, ?_⟩
        rw [Token.text, append_assoc, append_assoc]
  · cases h

theorem reads_stepAt : Reads stepAt? Token.text Token.IsStep where
  sound := by
    intro s token h
    rw [stepAt?, Option.map_eq_some_iff] at h
    obtain ⟨⟨digits, n⟩, hread, rfl⟩ := h
    obtain ⟨htoken, hpre⟩ := stepToken?_eq_some hread
    exact ⟨⟨nofun, htoken⟩, hpre⟩
  complete := by
    rintro (_ | digits) ⟨hne, htoken⟩ s
    · exact absurd rfl hne
    · rw [stepAt?, stepToken?_append htoken.1 htoken.2]
      rfl
  not_nil := by
    rintro token ⟨-, htoken⟩ hnil
    obtain ⟨m, htext, -⟩ := Token.opens_text htoken
    rw [hnil] at htext
    cases htext

theorem reads_tokenAt : Reads tokenAt? Token.text Token.IsToken where
  sound := by
    intro s token h
    rw [tokenAt?, Option.or_eq_some_iff] at h
    rcases h with h | ⟨-, h⟩
    · obtain ⟨rfl, hpre⟩ := reads_prevAt.sound h
      exact ⟨trivial, hpre⟩
    · obtain ⟨htoken, hpre⟩ := reads_stepAt.sound h
      exact ⟨htoken.2, hpre⟩
  complete := by
    intro token htoken s
    rw [tokenAt?]
    cases hprev : prevAt? (token.text ++ s) with
    | some token' =>
      -- only `{{prev.result}}` is read as this token
      obtain ⟨rfl, hpre⟩ := reads_prevAt.sound hprev
      by_cases heq : token = .prev
      · exact congrArg some heq.symm
      · exact absurd (comparable_of_begins hpre (prefix_append _ s))
          (Token.not_comparable_prev ⟨heq, htoken⟩)
    | none =>
      refine reads_stepAt.complete ⟨?_, htoken⟩ s
      rintro rfl
      rw [reads_prevAt.complete rfl] at hprev
      cases hprev
  not_nil := by
    intro token htoken hnil
    obtain ⟨m, htext, -⟩ := Token.opens_text htoken
    rw [hnil] at htext
    cases htext

/-! ## Passes -/

def stepsOf (s : List Char) : List Token := tokensOf (scan stepAt? Token.text s)

/-- The first loop: a text in the stead of `{{prev.result}}`. -/
def firstPass (replacement s : List Char) : List Char :=
  fill (fun _ => replacement) (scan prevAt? Token.text s)

def lastResult (results : List ChainStepResult) : String := results.getLast?.elim "" (·.result)

def resultOf (results : List ChainStepResult) : Token → List Char
  | .prev => (lastResult results).toList
  | .step digits => (results[(Text.ofDigits digits).toNat]?.elim "" (·.result)).toList

def singlePass (tmpl : String) (results : List ChainStepResult) : String :=
  String.ofList (fill (resultOf results) (scan tokenAt? Token.text tmpl.toList))

theorem replaceAll_eq_firstPass (replacement s : List Char) :
    replaceAll (fun s => if prevToken.isPrefixOf s then some prevToken.length else none) replacement s =
      firstPass replacement s := by
  have hfinds : Finds (fun s => if prevToken.isPrefixOf s then some prevToken.length else none)
      (· = prevToken) := by
    refine ⟨fun s n h => ?_, fun w s hw => ?_, by decide⟩
    · split at h
      · next hpre =>
          cases h
          obtain ⟨t, rfl⟩ := isPrefixOf_iff_prefix.1 hpre
          exact ⟨prevToken, t, rfl, rfl, rfl⟩
      · cases h
    · rw [hw, if_pos ( isPrefixOf_iff_prefix.2 (prefix_append _ s))]
      rfl
  induction s using reads_prevAt.scan_induction with
  | nil => rfl
  | letter c s hnone ih =>
    have hpre : ¬ prevToken.isPrefixOf (c :: s) = true := by
      intro hpre
      rw [prevAt?, if_pos hpre] at hnone
      cases hnone
    rw [replaceAll_of_none (if_neg hpre), ih, firstPass, firstPass, scan_of_none hnone, fill_inl]
  | token b s hb ih =>
    subst hb
    have hpre : prevToken.isPrefixOf (prevToken ++ s) = true :=
      isPrefixOf_iff_prefix.2 (prefix_append _ s)
    rw [firstPass, reads_prevAt.scan_token rfl, fill_inr, ← firstPass, ← ih]
    exact replaceAll_of_word hfinds rfl (if_pos hpre)

theorem resolveSteps_eq_drop (results : List ChainStepResult) (k : Nat) (s : List Char) :
    resolveSteps results k s = resolveSteps results 0 (s.drop k) := by
  induction s generalizing k with
  | nil => cases k <;> rfl
  | cons c s ih =>
    cases k with
    | zero => rfl
    | succ k => rw [resolveSteps, ih, drop_succ_cons]

theorem stoi_of_isToken (h : (Token.step digits).IsToken) :
    Text.stoi digits = if 2147483647 < Text.ofDigits digits then none else some (Text.ofDigits digits) := by
  have hread := @Text.stoi_digits_append digits [] h.1 h.2 nofun
  rwa [append_nil] at hread

theorem resultOf_step (results : List ChainStepResult)
    (h : (Token.step digits).IsToken) :
    (if 0 ≤ Text.ofDigits digits ∧ Text.ofDigits digits < results.length then
      (results[(Text.ofDigits digits).toNat]?.elim "" (·.result)).toList else []) =
      resultOf results (.step digits) := by
  have hnonneg := Text.ofDigits_nonneg h.2
  split
  · rfl
  · next hout =>
      rw [resultOf, getElem?_eq_none (by omega)]
      rfl

theorem resolveSteps_eq (results : List ChainStepResult) (s : List Char) :
    ((∀ token ∈ stepsOf s, token.InRange) →
      resolveSteps results 0 s = some (fill (resultOf results) (scan stepAt? Token.text s))) ∧
    ((∃ token ∈ stepsOf s, ¬ token.InRange) → resolveSteps results 0 s = none) := by
  induction s using reads_stepAt.scan_induction with
  | nil => exact ⟨fun _ => rfl, fun ⟨_, hmem, _⟩ => absurd hmem not_mem_nil⟩
  | letter c s hnone ih =>
    have hread : stepToken? (c :: s) = none := Option.map_eq_none_iff.1 hnone
    rw [stepsOf, scan_of_none hnone, tokensOf_inl, fill_inl, ← stepsOf, resolveSteps, hread]
    refine ⟨fun hall => ?_, fun hex => ?_⟩
    · dsimp only
      rw [ih.1 hall]
      rfl
    · dsimp only
      rw [ih.2 hex]
      rfl
  | token b s hb ih =>
    cases b with
    | prev => exact absurd rfl hb.1
    | step digits =>
      have hstep : resolveSteps results 0 ((Token.step digits).text ++ s) =
          (Text.stoi digits).bind fun index => (resolveSteps results 0 s).map fun rest =>
            (if 0 ≤ index ∧ index < results.length then
              (results[index.toNat]?.elim "" (·.result)).toList else []) ++ rest := by
        have hread := stepToken?_append hb.2.1 hb.2.2 s
        obtain ⟨c, w, hw⟩ := exists_cons_of_ne_nil (reads_stepAt.not_nil hb)
        rw [hw, cons_append] at hread ⊢
        rw [resolveSteps, hread]
        dsimp only
        rw [resolveSteps_eq_drop, length_cons, Nat.add_sub_cancel, drop_left]
      rw [stepsOf, reads_stepAt.scan_token hb, tokensOf_inr, fill_inr, ← stepsOf, hstep,
        stoi_of_isToken hb.2, forall_mem_cons, exists_mem_cons_iff]
      by_cases hrange : 2147483647 < Text.ofDigits digits
      · rw [if_pos hrange]
        exact ⟨fun hall => absurd hall.1 (not_le.2 hrange), fun _ => rfl⟩
      · rw [if_neg hrange, Option.bind_some, resultOf_step results hb.2]
        refine ⟨fun hall => ?_, fun hex => ?_⟩
        · rw [ih.1 hall.2]
          rfl
        · rw [ih.2 (hex.resolve_left (not_not_intro (not_lt.1 hrange)))]
          rfl

variable {tmpl : String}

theorem resolveString_eq_some {results : List ChainStepResult}
    (h : ∀ token ∈ stepsOf (firstPass (lastResult results).toList tmpl.toList), token.InRange) :
    resolveString tmpl results = some (String.ofList (fill (resultOf results)
      (scan stepAt? Token.text (firstPass (lastResult results).toList tmpl.toList)))) := by
  rw [resolveString, replaceAll_eq_firstPass]
  exact congrArg _ ((resolveSteps_eq results _).1 h)

theorem inRange_of_resolveString {result : String} {results : List ChainStepResult}
    (h : resolveString tmpl results = some result) :
    ∀ token ∈ stepsOf (firstPass (lastResult results).toList tmpl.toList), token.InRange := by
  intro token htoken
  by_contra hrange
  rw [resolveString, replaceAll_eq_firstPass] at h
  have hnone := (resolveSteps_eq results _).2 ⟨token, htoken, hrange⟩
  rw [lastResult] at hnone
  rw [hnone] at h
  cases h

/-! ## Cutting at the token of a step -/

section

variable {b : Token} (hb : b.IsStep) (u v : List Char)

include hb

theorem scan_append_step : scan stepAt? Token.text (u ++ (b.text ++ v)) =
    scan stepAt? Token.text u ++ .inr b :: scan stepAt? Token.text v :=
  reads_stepAt.scan_append_token hb (fun _ hb' => Token.not_beginsInside hb'.2 hb.2) u v

theorem scan_append_token : scan tokenAt? Token.text (u ++ (b.text ++ v)) =
    scan tokenAt? Token.text u ++ .inr b :: scan tokenAt? Token.text v :=
  reads_tokenAt.scan_append_token hb.2 (fun _ hb' => Token.not_beginsInside hb' hb.2) u v

theorem firstPass_append (replacement : List Char) : firstPass replacement (u ++ (b.text ++ v)) =
    firstPass replacement u ++ (b.text ++ firstPass replacement v) := by
  have hscan : scan prevAt? Token.text (u ++ (b.text ++ v)) =
      scan prevAt? Token.text u ++ (b.text.map .inl ++ scan prevAt? Token.text v) := by
    rw [reads_prevAt.scan_append, reads_prevAt.scan_word]
    · rintro token rfl hcomparable
      exact Token.not_comparable_prev hb hcomparable.symm
    · rintro token rfl
      exact Token.not_beginsInside hb.2 trivial
    · rintro token rfl
      exact Token.not_beginsInside trivial hb.2
  rw [firstPass, hscan, fill_append, fill_append, fill_map_inl]
  rfl

theorem stepsOf_append : stepsOf (u ++ (b.text ++ v)) = stepsOf u ++ b :: stepsOf v := by
  rw [stepsOf, scan_append_step hb, tokensOf_append, tokensOf_inr]
  rfl

end

theorem stepsOf_append_prev (u v : List Char) :
    stepsOf (u ++ (Token.prev.text ++ v)) = stepsOf u ++ stepsOf v := by
  rw [stepsOf, reads_stepAt.scan_append, reads_stepAt.scan_word, tokensOf_append, tokensOf_append,
    tokensOf_map_inl, nil_append]
  · rfl
  · exact fun token htoken => Token.not_comparable_prev htoken
  · exact fun token htoken => Token.not_beginsInside trivial htoken.2
  · exact fun token htoken => Token.not_beginsInside htoken.2 trivial

theorem fill_of_stepsOf_eq_nil (results : List ChainStepResult) (h : stepsOf s = []) :
    fill (resultOf results) (scan tokenAt? Token.text s) = firstPass (lastResult results).toList s := by
  have hscan : scan tokenAt? Token.text s = scan prevAt? Token.text s := by
    induction s using reads_tokenAt.scan_induction with
    | nil => rfl
    | letter c s hnone ih =>
      obtain ⟨hprev, hstep⟩ := Option.or_eq_none_iff.1 hnone
      rw [stepsOf, scan_of_none hstep, tokensOf_inl] at h
      rw [scan_of_none hnone, scan_of_none hprev, ih h]
    | token b s hb ih =>
      by_cases hprev : b = .prev
      · subst hprev
        rw [reads_tokenAt.scan_token hb, reads_prevAt.scan_token rfl, ih]
        exact stepsOf_append_prev [] s ▸ h
      · rw [stepsOf, reads_stepAt.scan_token ⟨hprev, hb⟩, tokensOf_inr] at h
        cases h
  rw [hscan]
  refine fill_congr fun b hb => ?_
  rw [(reads_prevAt.of_mem_tokensOf hb).1]
  rfl

/-! ## What the results add -/

/-- The text of a result makes no token of a step in a template. -/
def MakesNoToken (last tmpl : String) : Prop :=
  stepsOf (firstPass last.toList tmpl.toList) = stepsOf tmpl.toList

/-- The numbers of the steps in a template are `int`s. -/
def IndicesFit (tmpl : String) : Prop := ∀ token ∈ stepsOf tmpl.toList, token.InRange

theorem stepsOf_sublist (replacement s : List Char) :
    (stepsOf s).Sublist (stepsOf (firstPass replacement s)) := by
  induction s using reads_stepAt.token_induction with
  | free s hs =>
    rw [stepsOf, hs]
    exact nil_sublist _
  | token u b v hu hb ih =>
    rw [firstPass_append hb, stepsOf_append hb, stepsOf_append hb, stepsOf, hu]
    exact (ih.cons_cons b).trans (sublist_append_right _ _)

theorem fill_firstPass (results : List ChainStepResult)
    (h : stepsOf (firstPass (lastResult results).toList s) = stepsOf s) :
    fill (resultOf results) (scan stepAt? Token.text (firstPass (lastResult results).toList s)) =
      fill (resultOf results) (scan tokenAt? Token.text s) := by
  induction s using reads_stepAt.token_induction with
  | free s hs =>
    rw [fill_of_stepsOf_eq_nil results hs]
    exact reads_stepAt.fill_of_free (h.trans hs) _
  | token u b v hu hb ih =>
    rw [firstPass_append hb, stepsOf_append hb, stepsOf_append hb] at h
    have hunil : stepsOf u = [] := hu
    have hle := (stepsOf_sublist (lastResult results).toList v).length_le
    have hlength := congrArg List.length h
    rw [hunil, nil_append, length_append, length_cons, length_cons] at hlength
    -- the part before the first token has none after the first pass either
    have hfirst : stepsOf (firstPass (lastResult results).toList u) = [] :=
      length_eq_zero_iff.1 (by omega)
    rw [hfirst, hunil] at h
    rw [firstPass_append hb, scan_append_step hb, scan_append_token hb, fill_append, fill_append,
      fill_inr, fill_inr, fill_of_stepsOf_eq_nil results hunil, ih (List.cons.inj h).2]
    rw [reads_stepAt.fill_of_free hfirst]

/-- Results of which the last one is given and the others are all alike. -/
def sample (last other : String) : List ChainStepResult :=
  List.replicate 2147483648 ⟨0, "", other, "", true⟩ ++ [⟨0, "", last, "", true⟩]

theorem lastResult_sample (last other : String) : lastResult (sample last other) = last := by
  rw [lastResult, sample, getLast?_concat]
  rfl

theorem resultOf_sample (last other : String) {token : Token} (h : token.IsStep) (hrange : token.InRange) :
    resultOf (sample last other) token = other.toList := by
  cases token with
  | prev => exact absurd rfl h.1
  | step digits =>
    have hnonneg := Text.ofDigits_nonneg h.2.2
    have hle : Text.ofDigits digits ≤ 2147483647 := hrange
    have hlt : (Text.ofDigits digits).toNat < 2147483648 := by omega
    rw [resultOf, sample, getElem?_append_left (by rwa [length_replicate]),
      getElem?_replicate, if_pos hlt]
    rfl

theorem length_singlePass (last : String) (h : ∀ token ∈ stepsOf s, token.InRange) :
    ∃ base, ∀ other, (fill (resultOf (sample last other)) (scan tokenAt? Token.text s)).length =
      base + (stepsOf s).length * other.toList.length := by
  induction s using reads_stepAt.token_induction with
  | free s hs =>
    have hnil : stepsOf s = [] := hs
    refine ⟨(firstPass last.toList s).length, fun other => ?_⟩
    rw [fill_of_stepsOf_eq_nil _ hnil, lastResult_sample, hnil, length_nil, Nat.zero_mul, Nat.add_zero]
  | token u b v hu hb ih =>
    have hunil : stepsOf u = [] := hu
    rw [stepsOf_append hb, hunil, nil_append, forall_mem_cons] at h
    obtain ⟨base, hbase⟩ := ih h.2
    refine ⟨(firstPass last.toList u).length + base, fun other => ?_⟩
    rw [scan_append_token hb, fill_append, fill_inr, fill_of_stepsOf_eq_nil _ hunil, lastResult_sample,
      resultOf_sample last other hb h.1, length_append, length_append, hbase, stepsOf_append hb,
      hunil, nil_append, length_cons, Nat.succ_mul]
    omega

theorem makesNoToken_of_forall {last : String}
    (h : ∀ results, lastResult results = last →
      resolveString tmpl results = some (singlePass tmpl results)) :
    MakesNoToken last tmpl ∧ IndicesFit tmpl := by
  have hrange : ∀ token ∈ stepsOf (firstPass last.toList tmpl.toList), token.InRange := by
    have hresult := inRange_of_resolveString (h (sample last "") (lastResult_sample last ""))
    rwa [lastResult_sample] at hresult
  have hsub := stepsOf_sublist last.toList tmpl.toList
  have hfit : IndicesFit tmpl := fun token htoken => hrange token (hsub.subset htoken)
  refine ⟨?_, hfit⟩
  obtain ⟨base, hbase⟩ := length_singlePass last hfit
  have hlength (other : String) :
      (fill (fun _ => []) (scan stepAt? Token.text (firstPass last.toList tmpl.toList))).length +
        (stepsOf (firstPass last.toList tmpl.toList)).length * other.toList.length =
        base + (stepsOf tmpl.toList).length * other.toList.length := by
    have hlast := lastResult_sample last other
    have heq := h (sample last other) hlast
    rw [resolveString_eq_some (by rw [hlast]; exact hrange), hlast, singlePass, Option.some.injEq] at heq
    rw [← hbase other, ← String.ofList_injective heq]
    refine (length_fill_of_length _ fun token htoken => ?_).symm
    rw [resultOf_sample last other (reads_stepAt.of_mem_tokensOf htoken).1 (hrange token htoken)]
  -- two lengths of the other results tell how many tokens there are
  have hzero := hlength ""
  have hone := hlength "x"
  rw [show "".toList.length = 0 from rfl] at hzero
  rw [show "x".toList.length = 1 from rfl] at hone
  exact (hsub.eq_of_length (by omega)).symm

theorem firstPass_eq_self (replacement : List Char) (h : ¬ prevToken <:+: s) :
    firstPass replacement s = s := by
  refine reads_prevAt.fill_of_free ?_ _
  refine eq_nil_iff_forall_not_mem.2 fun token htoken => ?_
  obtain ⟨rfl, hinfix⟩ := reads_prevAt.of_mem_tokensOf htoken
  exact h hinfix

theorem not_makesNoToken (h : prevToken <:+: tmpl.toList) :
    ¬ MakesNoToken "\x7b\x7bsteps[0].result\x7d\x7d" tmpl := by
  intro hnone
  obtain ⟨u, v, heq⟩ := h
  have hb : (Token.step ['0']).IsStep :=
    ⟨nofun, cons_ne_nil _ _, forall_mem_singleton.2 (by decide)⟩
  have hscan : scan prevAt? Token.text (u ++ (prevToken ++ v)) =
      scan prevAt? Token.text u ++ .inr .prev :: scan prevAt? Token.text v := by
    refine reads_prevAt.scan_append_token rfl ?_ u v
    rintro token rfl
    exact Token.not_beginsInside trivial trivial
  have hfirst : firstPass (Token.step ['0']).text (u ++ (prevToken ++ v)) =
      firstPass (Token.step ['0']).text u ++ ((Token.step ['0']).text ++
        firstPass (Token.step ['0']).text v) := by
    rw [firstPass, hscan, fill_append, fill_inr]
    rfl
  rw [MakesNoToken, ← heq, append_assoc] at hnone
  change stepsOf (firstPass (Token.step ['0']).text _) = stepsOf (u ++ (Token.prev.text ++ v)) at hnone
  rw [hfirst, stepsOf_append hb, stepsOf_append_prev] at hnone
  have hlength := congrArg List.length hnone
  have hu := (stepsOf_sublist (Token.step ['0']).text u).length_le
  have hv := (stepsOf_sublist (Token.step ['0']).text v).length_le
  rw [length_append, length_append, length_cons] at hlength
  omega

/-- **The code does in two passes what one pass does**, for a result of the call before and whatever the other
results are, exactly when this result makes no token and the numbers are `int`s; and for all results exactly
when the template does not name the result of the call before. -/
theorem singlePass_iff (tmpl : String) :
    (∀ last, (∀ results, lastResult results = last →
        resolveString tmpl results = some (singlePass tmpl results)) ↔
      MakesNoToken last tmpl ∧ IndicesFit tmpl) ∧
    ((∀ results, resolveString tmpl results = some (singlePass tmpl results)) ↔
      ¬ prevToken <:+: tmpl.toList ∧ IndicesFit tmpl) := by
  have hone (last : String) (h : MakesNoToken last tmpl ∧ IndicesFit tmpl) (results : List ChainStepResult)
      (hlast : lastResult results = last) :
      resolveString tmpl results = some (singlePass tmpl results) := by
    obtain ⟨hnone, hfit⟩ := h
    subst hlast
    rw [resolveString_eq_some, fill_firstPass results hnone]
    · rfl
    · rw [hnone]
      exact hfit
  refine ⟨fun last => ⟨makesNoToken_of_forall, hone last⟩, fun h => ?_, fun h results => ?_⟩
  · refine ⟨fun hprev => not_makesNoToken hprev ?_, ?_⟩
    · exact (makesNoToken_of_forall fun results _ => h results).1
    · exact (@makesNoToken_of_forall tmpl "" fun results _ => h results).2
  · exact hone _ ⟨congrArg stepsOf (firstPass_eq_self _ h.1), h.2⟩ results rfl

/-- What a tool returned is read as a token. -/
theorem not_singlePass :
    resolveString "\x7b\x7bprev.result\x7d\x7d"
        [⟨0, "read", "secret", "", true⟩, ⟨1, "fetch", "\x7b\x7bsteps[0].result\x7d\x7d", "", true⟩] ≠
      some (singlePass "\x7b\x7bprev.result\x7d\x7d"
        [⟨0, "read", "secret", "", true⟩, ⟨1, "fetch", "\x7b\x7bsteps[0].result\x7d\x7d", "", true⟩]) := by
  decide +kernel

end RavBot.Tools.ChainTemplateEngine
