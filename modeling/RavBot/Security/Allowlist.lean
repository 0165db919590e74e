import RavBot.Lib.Glob
import RavBot.Security.ExecApproval

/-!
# The patterns of the allowlist

`glob_match` compares the characters of the pattern and of the text before it looks whether the
pattern has a star, so a star that stands before a star of the text matches just that one.  What the
loop computes is therefore `LiteralGlob`, not `Glob`.  That it returns to the last star only costs
nothing: what the pattern had matched before that star is matched by no later start in less of the
text (`LiteralGlob.exists_suffix`).
-/

namespace RavBot.Security

open RavBot.Lib

/-- The pattern behind the last star matches the text from a later place on. -/
def Later (star : Option (List Char × List Char)) : Prop :=
  ∃ pattern' c text', star = some (pattern', c :: text') ∧
    ∃ v, v <:+ text' ∧ LiteralGlob pattern' v

/-- What was compared since the last star was met: the pattern behind it and the text from there on
begin with the same characters. -/
def Compared (star : Option (List Char × List Char)) (pattern text : List Char) : Prop :=
  ∀ pattern' text', star = some (pattern', text') → ∃ q w,
    pattern' = q ++ pattern ∧ text' = w ++ text ∧ LiteralGlob.Pointwise q w

/-- How many steps are left at most, for patterns of this length: the text from the last star on gets
shorter at every return, and the pattern at every other step. -/
def stepsLeft (bound : Nat) (star : Option (List Char × List Char)) (pattern text : List Char) : Nat :=
  (star.elim text fun s => s.2).length * (bound + 1) + pattern.length + 1

section Loop

variable {star : Option (List Char × List Char)} {pattern text : List Char}

theorem compared_none : Compared none pattern text := nofun

theorem compared_self : Compared (some (pattern, text)) pattern text := by
  rintro _ _ ⟨⟩
  exact ⟨[], [], rfl, rfl, .nil⟩

theorem Compared.cons {p c : Char} (h : Compared star (p :: pattern) (c :: text))
    (hp : p = c ∨ p = '?') : Compared star pattern text := by
  intro pattern' text' hstar
  obtain ⟨q, w, rfl, rfl, hq⟩ := h pattern' text' hstar
  refine ⟨q ++ [p], w ++ [c], ?_, ?_, ?_⟩
  · rw [List.append_assoc]
    rfl
  · rw [List.append_assoc]
    rfl
  · exact List.rel_append hq (.cons hp .nil)

theorem Compared.exists_suffix (h : Compared star pattern text) (hlater : Later star) :
    ∃ v, v <:+ text ∧ LiteralGlob pattern v := by
  obtain ⟨pattern', c, text', hstar, v, hv, hmatch⟩ := hlater
  obtain ⟨q, w, rfl, htext, hq⟩ := h _ _ hstar
  exact LiteralGlob.exists_suffix hq (htext ▸ hv.trans (List.suffix_cons c text')) hmatch

theorem later_cons {c : Char} :
    Later (some (pattern, c :: text)) ↔ ∃ v, v <:+ text ∧ LiteralGlob pattern v := by
  constructor
  · rintro ⟨_, _, _, ⟨⟩, h⟩
    exact h
  · exact fun h => ⟨_, _, _, rfl, h⟩

theorem or_later :
    LiteralGlob pattern text ∨ Later (some (pattern, text)) ↔
      ∃ v, v <:+ text ∧ LiteralGlob pattern v := by
  constructor
  · rintro (h | ⟨_, _, _, ⟨⟩, v, hv, h⟩)
    · exact ⟨text, List.suffix_refl _, h⟩
    · exact ⟨v, hv.trans (List.suffix_cons _ _), h⟩
  · rintro ⟨v, hv, h⟩
    cases text with
    | nil => exact .inl (List.suffix_nil.1 hv ▸ h)
    | cons c text =>
      rcases List.suffix_cons_iff.1 hv with rfl | hv
      · exact .inl h
      · exact .inr (later_cons.2 ⟨v, hv, h⟩)

/-- The branch of the loop that returns to the last star. -/
def returnToStar (fuel : Nat) (star : Option (List Char × List Char)) : Bool :=
  match star with
  | some (pattern', text') => globLoop fuel (some (pattern', text'.tail)) pattern' text'.tail
  | none => false

theorem globLoop_nil (fuel : Nat) (star : Option (List Char × List Char)) (c : Char)
    (text : List Char) : globLoop (fuel + 1) star [] (c :: text) = returnToStar fuel star := rfl

theorem globLoop_cons (fuel : Nat) (star : Option (List Char × List Char)) (p : Char)
    (pattern : List Char) (c : Char) (text : List Char) :
    globLoop (fuel + 1) star (p :: pattern) (c :: text) =
      if p = c ∨ p = '?' then globLoop fuel star pattern text
      else if p = '*' then globLoop fuel (some (pattern, c :: text)) pattern (c :: text)
      else returnToStar fuel star := rfl

/-- What the loop decides with this fuel. -/
def Decides (bound fuel : Nat) : Prop :=
  ∀ {star : Option (List Char × List Char)} {pattern text : List Char},
    stepsLeft bound star pattern text ≤ fuel → pattern.length ≤ bound →
      (∀ s ∈ star, s.1.length ≤ bound) → Compared star pattern text →
        (globLoop fuel star pattern text = true ↔ LiteralGlob pattern text ∨ Later star)

theorem returnToStar_iff {bound fuel : Nat} (ih : Decides bound fuel) {c : Char}
    (hfuel : stepsLeft bound star pattern (c :: text) ≤ fuel + 1)
    (hstar : ∀ s ∈ star, s.1.length ≤ bound) (hcompared : Compared star pattern (c :: text)) :
    returnToStar fuel star = true ↔ Later star := by
  cases star with
  | none => exact iff_of_false (by simp [returnToStar]) (by rintro ⟨_, _, _, ⟨⟩, _⟩)
  | some s =>
    obtain ⟨pattern', text'⟩ := s
    obtain ⟨q, w, -, hw, -⟩ := hcompared _ _ rfl
    obtain ⟨x, rest, rfl⟩ : ∃ x rest, text' = x :: rest := by
      refine List.exists_cons_of_ne_nil ?_
      rw [hw]
      simp
    have hbound : pattern'.length ≤ bound := hstar _ rfl
    have hless : stepsLeft bound (some (pattern', rest)) pattern' rest ≤ fuel := by
      simp only [stepsLeft, Option.elim_some, List.length_cons, Nat.succ_mul] at hfuel ⊢
      omega
    rw [later_cons, ← or_later]
    exact ih hless hbound (by rintro _ ⟨⟩; exact hbound) compared_self

/-- **The loop.**  With enough fuel it tells whether the rest of the pattern matches the rest of the
text, or the pattern behind the last star a later part of it. -/
theorem decides (bound fuel : Nat) : Decides bound fuel := by
  induction fuel with
  | zero => exact fun hfuel => absurd hfuel (Nat.not_succ_le_zero _)
  | succ fuel ih =>
    intro star pattern text hfuel hpattern hstar hcompared
    cases text with
    | nil =>
      rw [globLoop, ← LiteralGlob.nil_right_iff]
      refine ⟨.inl, fun h => h.elim id fun hlater => ?_⟩
      obtain ⟨v, hv, hmatch⟩ := hcompared.exists_suffix hlater
      rwa [List.suffix_nil.1 hv] at hmatch
    | cons c text =>
      cases pattern with
      | nil =>
        have hno : ¬ LiteralGlob [] (c :: text) :=
          fun h => List.cons_ne_nil _ _ (LiteralGlob.nil_iff.1 h)
        rw [globLoop_nil, returnToStar_iff ih hfuel hstar hcompared, or_iff_right hno]
      | cons p pattern =>
        rw [List.length_cons] at hpattern
        rw [globLoop_cons]
        split_ifs with hp hp'
        · -- the characters agree
          rw [LiteralGlob.cons_iff hp]
          refine ih ?_ (Nat.le_of_succ_le hpattern) hstar (hcompared.cons hp)
          cases star with
          | none =>
            simp only [stepsLeft, Option.elim_none, List.length_cons, Nat.succ_mul] at hfuel ⊢
            omega
          | some s =>
            simp only [stepsLeft, Option.elim_some, List.length_cons] at hfuel ⊢
            omega
        · -- a new star: the later places of the one before are given up
          subst hp'
          have hhead : (c :: text).head? ≠ some '*' := by
            rw [List.head?_cons, ne_eq, Option.some.injEq]
            exact fun h => hp (.inl h.symm)
          have hless : stepsLeft bound (some (pattern, c :: text)) pattern (c :: text) ≤ fuel := by
            have hsuffix : (c :: text).length ≤ (star.elim (c :: text) fun s => s.2).length := by
              cases star with
              | none => exact le_rfl
              | some s =>
                obtain ⟨q, w, -, hw, -⟩ := hcompared _ _ rfl
                rw [Option.elim_some, hw, List.length_append]
                exact Nat.le_add_left _ _
            have hmul := Nat.mul_le_mul_right (bound + 1) hsuffix
            simp only [stepsLeft, Option.elim_some, List.length_cons] at hfuel hmul ⊢
            omega
          have hloop := ih hless (Nat.le_of_succ_le hpattern)
            (by rintro _ ⟨⟩; exact Nat.le_of_succ_le hpattern) compared_self
          rw [hloop, or_later, LiteralGlob.star_iff hhead]
          refine ⟨.inl, fun h => h.elim id fun hlater => ?_⟩
          obtain ⟨v, hv, hmatch⟩ := hcompared.exists_suffix hlater
          obtain ⟨v', hv', hmatch'⟩ := hmatch.exists_of_star
          exact ⟨v', hv'.trans hv, hmatch'⟩
        · rw [returnToStar_iff ih hfuel hstar hcompared, or_iff_right (LiteralGlob.not_cons hp hp')]

end Loop

theorem globMatch_iff (pattern text : String) :
    globMatch pattern text = true ↔ LiteralGlob pattern.toList text.toList := by
  have hfuel : stepsLeft pattern.toList.length none pattern.toList text.toList ≤
      (text.toList.length + 2) * (pattern.toList.length + 1) := by
    rw [stepsLeft, Option.elim_none, Nat.add_mul]
    omega
  rw [globMatch, decides _ _ hfuel le_rfl nofun compared_none, or_iff_left]
  rintro ⟨_, _, _, ⟨⟩, _⟩

/-- **Glob patterns.**  What `glob_match` accepts is always matched; it agrees with the meaning of a
pattern on a text exactly when the text is matched with every star that stands before a star of it
matching just that one, if it is matched at all; and it agrees with it on a text for every pattern
exactly when the text has no star. -/
theorem globMatch_agrees_iff (pattern text : String) :
    (globMatch pattern text = true → Glob pattern.toList text.toList) ∧
      ((globMatch pattern text = true ↔ Glob pattern.toList text.toList) ↔
        (Glob pattern.toList text.toList → LiteralGlob pattern.toList text.toList)) ∧
      ((∀ p, globMatch p text = true ↔ Glob p.toList text.toList) ↔ '*' ∉ text.toList) := by
  have hagree (pattern text : String) :
      (globMatch pattern text = true ↔ Glob pattern.toList text.toList) ↔
        (Glob pattern.toList text.toList → LiteralGlob pattern.toList text.toList) := by
    rw [globMatch_iff]
    exact ⟨fun h => h.2, fun h => ⟨LiteralGlob.glob, h⟩⟩
  refine ⟨fun h => ((globMatch_iff pattern text).1 h).glob, hagree pattern text, ?_⟩
  rw [← forall_literal_iff]
  constructor
  · intro h p
    have hp := (hagree (String.ofList p) text).1 (h _)
    rwa [String.toList_ofList] at hp
  · exact fun h pattern => (hagree pattern text).2 (h _)

/-- The pattern that should match every command does not match one with a star and something
behind it. -/
theorem not_globMatch_star : ¬ ∀ pattern text, globMatch pattern text = true ↔
    Glob pattern.toList text.toList := by
  intro h
  have hmatch := (h "*" "*a").2 (.star ['*', 'a'] .nil)
  revert hmatch
  decide

end RavBot.Security
