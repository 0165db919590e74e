import RavBot.Lib.Erasure

/-!
# Replacing words in a text

A filter that replaces dangerous words in a text scans it once from left to right (`replaceAll`): where a
word starts, the replacement is written in its stead, and what comes after the word is scanned as before.
A word may come into being in this way, since the replacement is shorter than what stood there, or has
other letters.

`Rewrites` says that a text becomes another one when words in it are replaced, any of them and none inside
another.  When a word begins and ends with a letter that no replacement has (`Bracketed`), a part of the
result that begins and ends with these letters comes from such a part of the text
(`exists_factor_of_replaceAll`), and two scans are like one (`Rewrites.comp`).
-/

open List

namespace RavBot.Lib

universe u

variable {α : Type u}

/-! ## Texts that become others -/

/-- A text becomes another one when words in it are replaced; `swap w v` says that `w` may be replaced
by `v`. -/
inductive Rewrites (swap : List α → List α → Prop) : List α → List α → Prop
  | nil : Rewrites swap [] []
  | keep (c : α) {s t : List α} : Rewrites swap s t → Rewrites swap (c :: s) (c :: t)
  | swap {w v s t : List α} : swap w v → Rewrites swap s t → Rewrites swap (w ++ s) (v ++ t)

/-- Words begin with `a` and end with `b`, and what they are replaced by has neither. -/
structure Bracketed (a b : α) (swap : List α → List α → Prop) : Prop where
  bracket : ∀ w v, swap w v → ∃ m, w = a :: m ++ [b]
  first_notMem : ∀ w v, swap w v → a ∉ v
  last_notMem : ∀ w v, swap w v → b ∉ v

namespace Rewrites

variable {swap swap' both : List α → List α → Prop} {s t u : List α} {a b c : α}

@[refl] theorem refl : ∀ s : List α, Rewrites swap s s
  | [] => nil
  | c :: s => keep c (refl s)

theorem append {s' t' : List α} (h : Rewrites swap s t) (h' : Rewrites swap s' t') :
    Rewrites swap (s ++ s') (t ++ t') := by
  induction h with
  | nil => exact h'
  | keep c _ ih => exact keep c ih
  | swap hw _ ih =>
    rw [append_assoc, append_assoc]
    exact Rewrites.swap hw ih

theorem mono (hswap : ∀ w v, swap w v → swap' w v) (h : Rewrites swap s t) :
    Rewrites swap' s t := by
  induction h with
  | nil => exact nil
  | keep c _ ih => exact keep c ih
  | swap hw _ ih => exact Rewrites.swap (hswap _ _ hw) ih

theorem eq_or_exists_swap (h : Rewrites swap s t) :
    s = t ∨ ∃ u w v s' t', s = u ++ (w ++ s') ∧ t = u ++ (v ++ t') ∧ swap w v ∧ Rewrites swap s' t' := by
  induction h with
  | nil => exact .inl rfl
  | keep c _ ih =>
    rcases ih with rfl | ⟨u, w, v, s', t', rfl, rfl, hw, h⟩
    · exact .inl rfl
    · exact .inr ⟨c :: u, w, v, s', t', rfl, rfl, hw, h⟩
  | swap hw h _ => exact .inr ⟨[], _, _, _, _, rfl, rfl, hw, h⟩

theorem cons_cases (h : Rewrites swap (c :: s) t) :
    (∃ t', t = c :: t' ∧ Rewrites swap s t') ∨
      ∃ w v s' t', c :: s = w ++ s' ∧ t = v ++ t' ∧ swap w v ∧ Rewrites swap s' t' := by
  generalize hcons : c :: s = text at h
  cases h with
  | nil => cases hcons
  | keep c' h =>
    obtain ⟨rfl, rfl⟩ := List.cons.inj hcons
    exact .inl ⟨_, rfl, h⟩
  | swap hw h => exact .inr ⟨_, _, _, _, rfl, rfl, hw, h⟩

theorem exists_split (hc : ∀ w v, swap w v → c ∉ v) {t₁ t₂ : List α}
    (h : Rewrites swap s (t₁ ++ c :: t₂)) :
    ∃ s₁ s₂, s = s₁ ++ c :: s₂ ∧ Rewrites swap s₁ t₁ ∧ Rewrites swap s₂ t₂ := by
  generalize htext : t₁ ++ c :: t₂ = text at h
  induction h generalizing t₁ with
  | nil => simp at htext
  | keep c' h ih =>
    cases t₁ with
    | nil =>
      obtain ⟨rfl, rfl⟩ := List.cons.inj htext
      exact ⟨[], _, rfl, nil, h⟩
    | cons c'' t₁ =>
      obtain ⟨rfl, htail⟩ := List.cons.inj htext
      obtain ⟨s₁, s₂, rfl, h₁, h₂⟩ := ih htail
      exact ⟨c'' :: s₁, s₂, rfl, keep c'' h₁, h₂⟩
  | swap hw h ih =>
    rcases append_eq_append_iff.1 htext with ⟨d, hv, htail⟩ | ⟨d, rfl, htail⟩
    · -- the letter would stand in the replacement
      cases d with
      | nil =>
        rw [append_nil] at hv
        obtain ⟨s₁, s₂, rfl, h₁, h₂⟩ := @ih [] htail
        refine ⟨_ ++ s₁, s₂, (append_assoc _ _ _).symm, ?_, h₂⟩
        have h₁ := Rewrites.swap hw h₁
        rw [hv, append_nil] at h₁
        exact h₁
      | cons c' d =>
        obtain ⟨rfl, -⟩ := List.cons.inj htail
        exact absurd (hv ▸ mem_append_right _ mem_cons_self) (hc _ _ hw)
    · obtain ⟨s₁, s₂, rfl, h₁, h₂⟩ := ih htail.symm
      exact ⟨_ ++ s₁, s₂, (append_assoc _ _ _).symm, Rewrites.swap hw h₁, h₂⟩

theorem exists_append (hbracket : Bracketed a b swap) {v : List α} (hv : a ∉ v)
    (h : Rewrites swap (v ++ s) t) : ∃ t', t = v ++ t' ∧ Rewrites swap s t' := by
  induction v generalizing t with
  | nil => exact ⟨t, rfl, h⟩
  | cons c v ih =>
    rw [mem_cons, not_or] at hv
    rcases h.cons_cases with ⟨t', rfl, htail⟩ | ⟨w, _, _, _, heq, -, hw, -⟩
    · obtain ⟨t'', rfl, hrest⟩ := ih hv.2 htail
      exact ⟨t'', rfl, hrest⟩
    · obtain ⟨m, rfl⟩ := hbracket.bracket _ _ hw
      exact absurd (List.cons.inj heq).1.symm hv.1

theorem mem_or (h : Rewrites swap s t) (hc : c ∈ t) : c ∈ s ∨ ∃ w v, swap w v ∧ c ∈ v := by
  induction h with
  | nil => exact .inl hc
  | keep c' _ ih =>
    rcases mem_cons.1 hc with rfl | hc
    · exact .inl mem_cons_self
    · exact (ih hc).imp_left (mem_cons_of_mem c')
  | swap hw _ ih =>
    rcases mem_append.1 hc with hc | hc
    · exact .inr ⟨_, _, hw, hc⟩
    · exact (ih hc).imp_left (mem_append_right _)

theorem length_le (hswap : ∀ w v, swap w v → v.length ≤ w.length) (h : Rewrites swap s t) :
    t.length ≤ s.length := by
  induction h with
  | nil => exact Nat.le_refl 0
  | keep c _ ih => exact Nat.succ_le_succ ih
  | swap hw _ ih =>
    rw [length_append, length_append]
    exact Nat.add_le_add (hswap _ _ hw) ih

theorem eq_nil (hswap : ∀ w v, swap w v → v ≠ []) (h : Rewrites swap s []) : s = [] := by
  generalize hnil : ([] : List α) = text at h
  cases h with
  | nil => rfl
  | keep => cases hnil
  | swap hw _ => exact absurd (append_eq_nil_iff.1 hnil.symm).1 (hswap _ _ hw)

theorem exists_append_cons {s₁ s₂ : List α} (hword : ∀ w v, swap w v → w <:+: s₁ ++ c :: s₂ → c ∉ w)
    (h : Rewrites swap (s₁ ++ c :: s₂) t) :
    ∃ t₁ t₂, t = t₁ ++ c :: t₂ ∧ Rewrites swap s₁ t₁ ∧ Rewrites swap s₂ t₂ := by
  generalize htext : s₁ ++ c :: s₂ = text at h hword
  induction h generalizing s₁ with
  | nil => simp at htext
  | keep c' h ih =>
    cases s₁ with
    | nil =>
      obtain ⟨rfl, rfl⟩ := List.cons.inj htext
      exact ⟨[], _, rfl, nil, h⟩
    | cons c'' s₁ =>
      obtain ⟨rfl, htail⟩ := List.cons.inj htext
      obtain ⟨t₁, t₂, rfl, h₁, h₂⟩ :=
        ih htail fun w v hw hin => hword w v hw (hin.trans (suffix_cons c'' _).isInfix)
      exact ⟨c'' :: t₁, t₂, rfl, keep c'' h₁, h₂⟩
  | swap hw h ih =>
    have hnot := hword _ _ hw (prefix_append _ _).isInfix
    rcases append_eq_append_iff.1 htext with ⟨d, rfl, htail⟩ | ⟨d, rfl, htail⟩
    · cases d with
      | nil =>
        rw [append_nil] at hw
        obtain ⟨t₁, t₂, rfl, h₁, h₂⟩ := @ih [] htail fun w v hw hin =>
          hword w v hw (hin.trans (suffix_append _ _).isInfix)
        refine ⟨_ ++ t₁, t₂, (append_assoc _ _ _).symm, ?_, h₂⟩
        have h₁ := Rewrites.swap hw h₁
        rwa [append_nil] at h₁
      | cons c' d =>
        obtain ⟨rfl, -⟩ := List.cons.inj htail
        exact absurd (mem_append_right _ mem_cons_self) hnot
    · obtain ⟨t₁, t₂, rfl, h₁, h₂⟩ := ih htail.symm fun w v hw hin =>
        hword w v hw (hin.trans (suffix_append _ _).isInfix)
      exact ⟨_ ++ t₁, t₂, (append_assoc _ _ _).symm, Rewrites.swap hw h₁, h₂⟩

/-- Two rewritings are one: a word that the first one made, in a part of the text, may be replaced
there by what the second one replaces it by. -/
theorem comp (hfirst : Bracketed a b swap) (hsecond : Bracketed a b swap')
    (hboth : ∀ w v, swap w v → both w v)
    (hmade : ∀ x w v, x <:+: s → Rewrites swap x w → swap' w v → both x v)
    (h : Rewrites swap s t) (h' : Rewrites swap' t u) : Rewrites both s u := by
  induction hlength : s.length using Nat.strong_induction_on generalizing s t u with
  | _ n ih =>
    cases h with
    | nil =>
      generalize hnil : ([] : List α) = text at h'
      cases h' with
      | nil => exact nil
      | keep => cases hnil
      | swap hw _ =>
        obtain ⟨m, rfl⟩ := hsecond.bracket _ _ hw
        cases hnil
    | keep c h =>
      rcases h'.cons_cases with ⟨u', rfl, htail⟩ | ⟨w, v, t', u', heq, rfl, hw, htail⟩
      · refine keep c (ih _ ?_ (fun x w v hx => hmade x w v (hx.trans ?_)) h htail rfl)
        · rw [← hlength]
          exact Nat.lt_succ_self _
        · exact (suffix_cons c _).isInfix
      · -- the word ends with a letter that was in the text
        obtain ⟨m, rfl⟩ := hsecond.bracket _ _ hw
        have hwhole := keep c h
        rw [heq, append_assoc, singleton_append] at hwhole
        obtain ⟨x₁, x₂, hx, h₁, h₂⟩ := hwhole.exists_split hfirst.last_notMem
        rw [hx] at hmade hlength ⊢
        have hword : Rewrites swap (x₁ ++ [b]) (a :: m ++ [b]) := h₁.append (refl [b])
        have hrest : Rewrites both x₂ u' := by
          refine ih _ ?_ (fun x w v hx => hmade x w v (hx.trans ?_)) h₂ htail rfl
          · rw [← hlength, length_append, length_cons]
            omega
          · exact ⟨x₁ ++ [b], [], by simp⟩
        have hswap := hmade _ _ _ ⟨[], x₂, by simp⟩ hword hw
        have hall := Rewrites.swap hswap hrest
        rwa [append_assoc, singleton_append] at hall
    | swap hw h =>
      obtain ⟨u', rfl, htail⟩ := h'.exists_append hsecond (hfirst.first_notMem _ _ hw)
      refine Rewrites.swap (hboth _ _ hw)
        (ih _ ?_ (fun x w v hx => hmade x w v (hx.trans ?_)) h htail rfl)
      · obtain ⟨m, rfl⟩ := hfirst.bracket _ _ hw
        rw [← hlength, length_append, length_append, length_singleton]
        omega
      · exact (suffix_append _ _).isInfix

end Rewrites

/-! ## Scanning -/

/-- Scan a text and replace the words.  `matchAt` gives the length of the word with which a text begins,
and `k` letters of the last word are still to be skipped. -/
def replaceFrom (matchAt : List α → Option Nat) (new : List α) : Nat → List α → List α
  | _, [] => []
  | k + 1, _ :: s => replaceFrom matchAt new k s
  | 0, c :: s =>
    match matchAt (c :: s) with
    | some (n + 1) => new ++ replaceFrom matchAt new n s
    | _ => c :: replaceFrom matchAt new 0 s

/-- Scan a text and write `new` in the stead of the words. -/
def replaceAll (matchAt : List α → Option Nat) (new s : List α) : List α :=
  replaceFrom matchAt new 0 s

section

variable {matchAt : List α → Option Nat} {word : List α → Prop} {new : List α}

theorem replaceFrom_eq (matchAt : List α → Option Nat) (new : List α) (k : Nat) (s : List α) :
    replaceFrom matchAt new k s = replaceAll matchAt new (s.drop k) := by
  induction s generalizing k with
  | nil => cases k <;> rfl
  | cons c s ih =>
    cases k with
    | zero => rfl
    | succ k => rw [replaceFrom, ih, drop_succ_cons]

theorem replaceAll_of_word (h : Finds matchAt word) {w s : List α} (hw : word w)
    (hs : matchAt (w ++ s) = some w.length) :
    replaceAll matchAt new (w ++ s) = new ++ replaceAll matchAt new s := by
  cases w with
  | nil => exact absurd hw h.not_nil
  | cons c w =>
    rw [cons_append, length_cons] at hs
    rw [replaceAll, cons_append, replaceFrom, hs]
    dsimp only
    rw [replaceFrom_eq, drop_left]

theorem replaceAll_of_none {c : α} {s : List α} (hs : matchAt (c :: s) = none) :
    replaceAll matchAt new (c :: s) = c :: replaceAll matchAt new s := by
  rw [replaceAll, replaceFrom, hs]
  rfl

theorem rewrites_replaceAll (h : Finds matchAt word) (s : List α) :
    Rewrites (fun w v => word w ∧ v = new) s (replaceAll matchAt new s) := by
  induction s using h.scan_induction with
  | nil => exact .nil
  | letter c s hnone ih =>
    rw [replaceAll_of_none hnone]
    exact .keep c ih
  | word w s hw hsome ih =>
    rw [replaceAll_of_word h hw hsome]
    exact .swap ⟨hw, rfl⟩ ih

/-- A letter of the result that the replacement does not have stood in the text, where no word begins,
and what comes after it is the result of scanning what came after it. -/
theorem exists_split_of_replaceAll (h : Finds matchAt word) {s t₁ t₂ : List α} {c : α} (hc : c ∉ new)
    (ht : replaceAll matchAt new s = t₁ ++ c :: t₂) :
    ∃ s₁ s₂, s = s₁ ++ c :: s₂ ∧ Rewrites (fun w v => word w ∧ v = new) s₁ t₁ ∧
      replaceAll matchAt new s₂ = t₂ ∧ matchAt (c :: s₂) = none := by
  induction s using h.scan_induction generalizing t₁ with
  | nil =>
    have hnil : t₁ ++ c :: t₂ = [] := ht.symm
    simp at hnil
  | letter c' s hnone ih =>
    rw [replaceAll_of_none hnone] at ht
    cases t₁ with
    | nil =>
      obtain ⟨rfl, htail⟩ := List.cons.inj ht
      exact ⟨[], s, rfl, .nil, htail, hnone⟩
    | cons c'' t₁ =>
      obtain ⟨rfl, htail⟩ := List.cons.inj ht
      obtain ⟨s₁, s₂, rfl, h₁, h₂⟩ := ih htail
      exact ⟨c' :: s₁, s₂, rfl, .keep c' h₁, h₂⟩
  | word w s hw hsome ih =>
    rw [replaceAll_of_word h hw hsome] at ht
    rcases append_eq_append_iff.1 ht with ⟨d, rfl, htail⟩ | ⟨d, hnew, htail⟩
    · obtain ⟨s₁, s₂, rfl, h₁, h₂⟩ := ih htail
      exact ⟨w ++ s₁, s₂, (append_assoc _ _ _).symm, .swap ⟨hw, rfl⟩ h₁, h₂⟩
    · cases d with
      | nil =>
        rw [append_nil] at hnew
        obtain ⟨s₁, s₂, rfl, h₁, h₂⟩ := @ih [] htail.symm
        refine ⟨w ++ s₁, s₂, (append_assoc _ _ _).symm, ?_, h₂⟩
        have hswap : Rewrites (fun w v => word w ∧ v = new) (w ++ s₁) (new ++ []) :=
          .swap ⟨hw, rfl⟩ h₁
        rw [append_nil, hnew] at hswap
        rw [hnew]
        exact hswap
      | cons c' d =>
        obtain ⟨rfl, -⟩ := List.cons.inj htail
        exact absurd (hnew ▸ mem_append_right _ mem_cons_self) hc

theorem exists_prefix_of_replaceAll (h : Finds matchAt word) {s t q : List α} {b : α} (hb : b ∉ new)
    (ht : replaceAll matchAt new s = t ++ b :: q) :
    ∃ v y, s = v ++ b :: y ∧ Rewrites (fun w v => word w ∧ v = new) (v ++ [b]) (t ++ [b]) := by
  obtain ⟨v, y, rfl, hrewrites, -⟩ := exists_split_of_replaceAll h hb ht
  exact ⟨v, y, rfl, hrewrites.append (.refl [b])⟩

theorem exists_factor_of_replaceAll (h : Finds matchAt word) {s m p q : List α} {a b : α}
    (ha : a ∉ new) (hb : b ∉ new) (ht : replaceAll matchAt new s = p ++ (a :: m ++ [b]) ++ q) :
    ∃ x v y, s = x ++ (a :: v ++ [b]) ++ y ∧
      Rewrites (fun w v => word w ∧ v = new) (a :: v ++ [b]) (a :: m ++ [b]) ∧
      ¬ word (a :: v ++ [b]) := by
  rw [append_assoc, append_assoc, singleton_append, cons_append] at ht
  obtain ⟨x, s₂, rfl, -, hrest, hnone⟩ := exists_split_of_replaceAll h ha ht
  obtain ⟨v, y, rfl, hrewrites⟩ := exists_prefix_of_replaceAll h hb hrest
  refine ⟨x, v, y, by simp, hrewrites.keep a, fun hword => ?_⟩
  have hsome := h.complete _ y hword
  rw [append_assoc, singleton_append, cons_append, hnone] at hsome
  cases hsome

end

end RavBot.Lib
