import RavBot.Lib.Erasure

/-!
# Passes that cut words out of a text

A pass goes over a text from left to right and cuts out the words that a search finds (`cutAll`).  The
search sees the letter before the word and the text from the word on, so that it may ask for the beginning
of a line, or take as much as it can.

`Cuts` says that a text can be got from another one by cutting out some of the words that stand in it, and
not the last letter.  A part of what a pass leaves comes from a part of the text before it in this way
(`exists_part_of_cutAll`), and so does a part of what several passes leave (`exists_part_of_cutPasses`).
-/

open List

namespace RavBot.Lib

universe u

variable {α : Type u}

/-- Go over a text and skip the words.  `c` is the letter before the text, and `k` letters are still to be
skipped. -/
def cutFrom (matchAt : α → List α → Option Nat) : α → Nat → List α → List α
  | _, _, [] => []
  | _, k + 1, a :: s => cutFrom matchAt a k s
  | c, 0, a :: s =>
    match matchAt c (a :: s) with
    | some (n + 1) => cutFrom matchAt a n s
    | _ => a :: cutFrom matchAt a 0 s

/-- Cut the words out of a text behind the letter `c`. -/
def cutAll (matchAt : α → List α → Option Nat) (c : α) (s : List α) : List α := cutFrom matchAt c 0 s

def cutPasses (passes : List (α → List α → Option Nat)) (c : α) (s : List α) : List α :=
  passes.foldl (fun s matchAt => cutAll matchAt c s) s

/-- What a search for words is to be like: a word has letters, it does not go away when the text goes on,
and it is the same when the text ends earlier, but not before the word. -/
structure Search (matchAt : α → List α → Option Nat) : Prop where
  bounds : ∀ {c s n}, matchAt c s = some n → 0 < n ∧ n ≤ s.length
  mono : ∀ {c s} t, (matchAt c s).isSome → (matchAt c (s ++ t)).isSome
  trunc : ∀ {c w y z}, matchAt c (w ++ (y ++ z)) = some w.length → matchAt c (w ++ y) = some w.length

/-- A word is found somewhere in a text behind the letter `c`. -/
def Found (matchAt : α → List α → Option Nat) (c : α) (s : List α) : Prop :=
  ∃ d r, d :: r <:+ c :: s ∧ (matchAt d r).isSome

/-- Some of the words in a text behind the letter `c` are cut out, and the last letter is not. -/
inductive Cuts (matchAt : α → List α → Option Nat) : α → List α → List α → Prop
  | last (c b : α) : Cuts matchAt c [b] [b]
  | letter (c : α) {a : α} {s t : List α} : Cuts matchAt a s t → Cuts matchAt c (a :: s) (a :: t)
  | word {c : α} {x : List α} {d : α} {s t : List α} :
      matchAt c (x ++ d :: s) = some (x.length + 1) → Cuts matchAt d s t →
        Cuts matchAt c (x ++ d :: s) t

/-- Some of the words that each pass looks for are cut out, one pass after the other. -/
def CutsBy : List (α → List α → Option Nat) → α → List α → List α → Prop
  | [], _, s, t => s = t
  | matchAt :: passes, c, s, t => ∃ s', Cuts matchAt c s s' ∧ CutsBy passes c s' t

section

variable {matchAt : α → List α → Option Nat}

/-! ## One pass -/

@[simp] theorem cutAll_nil (c : α) : cutAll matchAt c [] = [] := rfl

theorem cutAll_of_none {c a : α} {s : List α} (h : matchAt c (a :: s) = none) :
    cutAll matchAt c (a :: s) = a :: cutAll matchAt a s := by
  rw [cutAll, cutFrom, h]
  rfl

theorem cutFrom_append (c d : α) (x s : List α) :
    cutFrom matchAt c (x.length + 1) (x ++ d :: s) = cutAll matchAt d s := by
  induction x generalizing c with
  | nil => rfl
  | cons a x ih => exact ih a

theorem cutAll_of_word {c d : α} {x s : List α}
    (h : matchAt c (x ++ d :: s) = some (x.length + 1)) :
    cutAll matchAt c (x ++ d :: s) = cutAll matchAt d s := by
  cases x with
  | nil =>
    rw [nil_append] at h ⊢
    rw [cutAll, cutFrom, h]
    rfl
  | cons a x =>
    rw [cons_append] at h ⊢
    rw [cutAll, cutFrom, h]
    exact cutFrom_append a d x s

theorem Search.exists_word (h : Search matchAt) {c : α} {s : List α} {n : Nat}
    (hn : matchAt c s = some n) : ∃ x d r, s = x ++ d :: r ∧ n = x.length + 1 := by
  obtain ⟨hpos, hle⟩ := h.bounds hn
  have hlt : n - 1 < s.length := by omega
  refine ⟨s.take (n - 1), s[n - 1], s.drop n, ?_, ?_⟩
  · have hdrop : s.drop (n - 1) = s[n - 1] :: s.drop n := by
      rw [drop_eq_getElem_cons hlt, Nat.sub_add_cancel hpos]
    rw [← hdrop, take_append_drop]
  · rw [length_take, Nat.min_eq_left hlt.le, Nat.sub_add_cancel hpos]

theorem Search.scan_induction (h : Search matchAt) {motive : α → List α → Prop}
    (nil : ∀ c, motive c [])
    (letter : ∀ c a s, matchAt c (a :: s) = none → motive a s → motive c (a :: s))
    (word : ∀ c x d s, matchAt c (x ++ d :: s) = some (x.length + 1) → motive d s →
      motive c (x ++ d :: s))
    (c : α) (s : List α) : motive c s := by
  induction hlength : s.length using Nat.strong_induction_on generalizing c s with
  | _ n ih =>
    cases s with
    | nil => exact nil c
    | cons a s =>
      cases hmatch : matchAt c (a :: s) with
      | none =>
        apply letter c a s hmatch
        apply ih s.length _ a s rfl
        rw [← hlength]
        exact Nat.lt_succ_self _
      | some n' =>
        obtain ⟨x, d, r, heq, rfl⟩ := h.exists_word hmatch
        rw [heq] at hmatch hlength ⊢
        apply word c x d r hmatch
        apply ih r.length _ d r rfl
        rw [← hlength, length_append, length_cons]
        omega

theorem Search.cutAll_sublist (h : Search matchAt) (c : α) (s : List α) :
    (cutAll matchAt c s).Sublist s := by
  induction c, s using h.scan_induction with
  | nil c => exact List.Sublist.refl []
  | letter c a s hmatch ih =>
    rw [cutAll_of_none hmatch]
    exact ih.cons_cons a
  | word c x d s hmatch ih =>
    rw [cutAll_of_word hmatch]
    exact (ih.cons d).trans (sublist_append_right x (d :: s))

theorem Search.not_found_nil (h : Search matchAt) (c : α) : ¬ Found matchAt c [] := by
  rintro ⟨d, r, hr, hmatch⟩
  obtain ⟨n, hn⟩ := Option.isSome_iff_exists.1 hmatch
  obtain ⟨hpos, hle⟩ := h.bounds hn
  have hlength := hr.length_le
  rw [length_cons, length_singleton] at hlength
  omega

theorem found_cons {c a : α} {s : List α} :
    Found matchAt c (a :: s) ↔ (matchAt c (a :: s)).isSome ∨ Found matchAt a s := by
  constructor
  · rintro ⟨d, r, hr, hmatch⟩
    rcases suffix_cons_iff.1 hr with heq | hr
    · obtain ⟨rfl, rfl⟩ := List.cons.inj heq
      exact .inl hmatch
    · exact .inr ⟨d, r, hr, hmatch⟩
  · rintro (hmatch | ⟨d, r, hr, hmatch⟩)
    · exact ⟨c, a :: s, suffix_refl _, hmatch⟩
    · exact ⟨d, r, hr.trans (suffix_cons c _), hmatch⟩

theorem Search.found_of_part (h : Search matchAt) {c d : α} {s r : List α}
    (hfound : Found matchAt d r) (hr : d :: r <:+: c :: s) : Found matchAt c s := by
  obtain ⟨e, u, hu, hmatch⟩ := hfound
  obtain ⟨x, y, hxy⟩ := hr
  obtain ⟨z, hz⟩ := hu
  refine ⟨e, u ++ y, ⟨x ++ z, ?_⟩, h.mono y hmatch⟩
  rw [← hxy, ← hz]
  simp only [append_assoc, cons_append]

theorem Search.cutAll_eq_self_iff (h : Search matchAt) (c : α) (s : List α) :
    cutAll matchAt c s = s ↔ ¬ Found matchAt c s := by
  induction c, s using h.scan_induction with
  | nil c => exact iff_of_true rfl (h.not_found_nil c)
  | letter c a s hmatch ih =>
    rw [cutAll_of_none hmatch, List.cons.injEq, eq_self_iff_true, true_and, ih, found_cons, hmatch,
      Option.isSome_none, or_iff_right Bool.false_ne_true]
  | word c x d s hmatch ih =>
    rw [cutAll_of_word hmatch]
    apply iff_of_false
    · intro heq
      have hle := (h.cutAll_sublist d s).length_le
      rw [heq, length_append, length_cons] at hle
      omega
    · intro hnot
      apply hnot
      refine ⟨c, x ++ d :: s, suffix_refl _, ?_⟩
      rw [hmatch]
      rfl

theorem eraseFrom_eq_cutFrom (matchAt : List α → Option Nat) (k : Nat) (c : α) (s : List α) :
    eraseFrom matchAt k s = cutFrom (fun _ => matchAt) c k s := by
  induction s generalizing k c with
  | nil => cases k <;> rfl
  | cons a s ih =>
    cases k with
    | succ k => exact ih k a
    | zero =>
      rw [eraseFrom, cutFrom]
      cases matchAt (a :: s) with
      | none => exact congrArg (a :: ·) (ih 0 a)
      | some n =>
        cases n with
        | zero => exact congrArg (a :: ·) (ih 0 a)
        | succ n => exact ih n a

/-! ## Cutting out some of the words -/

namespace Cuts

theorem ne_nil {c : α} {s t : List α} (h : Cuts matchAt c s t) : s ≠ [] ∧ t ≠ [] := by
  induction h with
  | last c b => exact ⟨cons_ne_nil _ _, cons_ne_nil _ _⟩
  | letter c _ _ => exact ⟨cons_ne_nil _ _, cons_ne_nil _ _⟩
  | word _ _ ih => exact ⟨append_ne_nil_of_right_ne_nil _ (cons_ne_nil _ _), ih.2⟩

theorem head_eq {c : α} {s t : List α} (h : Cuts matchAt c s t) (hhead : matchAt c s = none) :
    t.head? = s.head? := by
  cases h with
  | last c b => rfl
  | letter c _ => rfl
  | word hmatch _ =>
    rw [hmatch] at hhead
    cases hhead

end Cuts

theorem Search.exists_prefix_of_cutAll (h : Search matchAt) {c : α} {s t : List α} (hne : t ≠ [])
    (ht : t <+: cutAll matchAt c s) : ∃ u, u <+: s ∧ Cuts matchAt c u t := by
  induction c, s using h.scan_induction generalizing t with
  | nil c => exact absurd (prefix_nil.1 ht) hne
  | letter c a s hmatch ih =>
    rw [cutAll_of_none hmatch] at ht
    obtain ⟨b, t, rfl⟩ := exists_cons_of_ne_nil hne
    obtain ⟨rfl, ht⟩ := cons_prefix_cons.1 ht
    rcases eq_or_ne t [] with rfl | hne'
    · exact ⟨[b], cons_prefix_cons.2 ⟨rfl, nil_prefix⟩, .last c b⟩
    · obtain ⟨u, hu, hcuts⟩ := ih hne' ht
      exact ⟨b :: u, cons_prefix_cons.2 ⟨rfl, hu⟩, .letter c hcuts⟩
  | word c x d s hmatch ih =>
    rw [cutAll_of_word hmatch] at ht
    obtain ⟨u, ⟨y, rfl⟩, hcuts⟩ := ih hne ht
    refine ⟨x ++ d :: u, ⟨y, ?_⟩, .word ?_ hcuts⟩
    · rw [append_assoc, cons_append]
    · have hword : matchAt c ((x ++ [d]) ++ (u ++ y)) = some (x ++ [d]).length := by
        rw [append_assoc, singleton_append, length_append, length_singleton]
        exact hmatch
      have htrunc := h.trunc hword
      rwa [append_assoc, singleton_append, length_append, length_singleton]
        at htrunc

/-- A part of what a pass leaves stands behind a letter of the text, and begins what the pass leaves of
what comes behind it. -/
theorem Search.exists_suffix_of_cutAll (h : Search matchAt) {c a : α} {s t : List α}
    (ht : a :: t <:+: c :: cutAll matchAt c s) :
    ∃ r, a :: r <:+ c :: s ∧ t <+: cutAll matchAt a r := by
  induction c, s using h.scan_induction with
  | nil c =>
    obtain ⟨rfl, hnil⟩ | ht := infix_cons_iff.1 ht |>.imp_left cons_prefix_cons.1
    · exact ⟨[], suffix_refl _, hnil⟩
    · cases infix_nil.1 ht
  | letter c b s hmatch ih =>
    obtain ⟨rfl, hfront⟩ | ht := infix_cons_iff.1 ht |>.imp_left cons_prefix_cons.1
    · exact ⟨b :: s, suffix_refl _, hfront⟩
    · rw [cutAll_of_none hmatch] at ht
      obtain ⟨r, hr, hfront⟩ := ih ht
      exact ⟨r, hr.trans (suffix_cons c _), hfront⟩
  | word c x d s hmatch ih =>
    obtain ⟨rfl, hfront⟩ | ht := infix_cons_iff.1 ht |>.imp_left cons_prefix_cons.1
    · exact ⟨x ++ d :: s, suffix_refl _, hfront⟩
    · rw [cutAll_of_word hmatch] at ht
      obtain ⟨r, hr, hfront⟩ := ih (ht.trans (suffix_cons d _).isInfix)
      refine ⟨r, hr.trans ⟨c :: x, ?_⟩, hfront⟩
      rw [cons_append]

theorem Search.exists_unmatched_of_cutAll (h : Search matchAt) {c a : α} {s t : List α}
    (ht : a :: t <:+: cutAll matchAt c s) :
    ∃ d r, a :: r <:+ s ∧ matchAt d (a :: r) = none ∧ t <+: cutAll matchAt a r := by
  induction c, s using h.scan_induction with
  | nil c => cases infix_nil.1 ht
  | letter c b s hmatch ih =>
    rw [cutAll_of_none hmatch] at ht
    obtain ⟨rfl, hfront⟩ | ht := infix_cons_iff.1 ht |>.imp_left cons_prefix_cons.1
    · exact ⟨c, s, suffix_refl _, hmatch, hfront⟩
    · obtain ⟨d, r, hr, hnone, hfront⟩ := ih ht
      exact ⟨d, r, hr.trans (suffix_cons b s), hnone, hfront⟩
  | word c x d s hmatch ih =>
    rw [cutAll_of_word hmatch] at ht
    obtain ⟨e, r, hr, hnone, hfront⟩ := ih ht
    refine ⟨e, r, hr.trans ⟨x ++ [d], ?_⟩, hnone, hfront⟩
    rw [append_assoc, singleton_append]

theorem Search.exists_part_of_cutAll (h : Search matchAt) {c a : α} {s t : List α} (hne : t ≠ [])
    (ht : a :: t <:+: c :: cutAll matchAt c s) :
    ∃ u, a :: u <:+: c :: s ∧ Cuts matchAt a u t := by
  obtain ⟨r, hr, hfront⟩ := h.exists_suffix_of_cutAll ht
  obtain ⟨u, hu, hcuts⟩ := h.exists_prefix_of_cutAll hne hfront
  exact ⟨u, (cons_prefix_cons.2 ⟨rfl, hu⟩).isInfix.trans hr.isInfix, hcuts⟩

theorem Cuts.eq_of_not_found {c : α} {s t : List α} (hcuts : Cuts matchAt c s t)
    (hnot : ¬ Found matchAt c s) : t = s := by
  induction hcuts with
  | last c b => rfl
  | letter c _ ih =>
    rw [found_cons] at hnot
    rw [ih fun hfound => hnot (.inr hfound)]
  | @word c x d s _ hmatch _ _ =>
    refine absurd ⟨c, x ++ d :: s, suffix_refl _, ?_⟩ hnot
    rw [hmatch]
    rfl

/-! ## A text with one word -/

/-- A word stands in a text, and no other one is found there.  What is found does not change when the text
goes on. -/
structure Lone (matchAt : α → List α → Option Nat) (c : α) (x w y : List α) : Prop where
  stable : ∀ d s n, matchAt d s = some n → ∀ t, matchAt d (s ++ t) = some n
  word : ∀ d, matchAt d w = some w.length
  only : ∀ d r, d :: r <:+ c :: (x ++ (w ++ y)) → (matchAt d r).isSome → r = w ++ y

namespace Lone

variable {c : α} {x w y : List α}

theorem not_found (h : Lone matchAt c x w y) {d : α} {r z : List α}
    (hr : d :: (r ++ z) <:+ c :: (x ++ (w ++ y))) (hlt : r.length + z.length < w.length + y.length)
    (hsearch : Search matchAt) : ¬ Found matchAt d r := by
  rintro ⟨e, u, ⟨v, hv⟩, hmatch⟩
  have hsuffix : e :: (u ++ z) <:+ d :: (r ++ z) := by
    refine ⟨v, ?_⟩
    rw [← cons_append, ← append_assoc, hv]
    rfl
  have heq := h.only e (u ++ z) (hsuffix.trans hr) (hsearch.mono z hmatch)
  have hle := hsuffix.length_le
  have hlength := congrArg List.length heq
  simp only [length_append, length_cons] at hle hlength
  omega

theorem cutAll_eq (h : Lone matchAt c x w y) (hsearch : Search matchAt) :
    cutAll matchAt c (x ++ (w ++ y)) = x ++ y := by
  induction x generalizing c with
  | nil =>
    have hmatch := h.stable c w _ (h.word c) y
    obtain ⟨v, d, r, heq, hlength⟩ := hsearch.exists_word hmatch
    have hsplit : w ++ y = (v ++ [d]) ++ r := by
      rw [heq, append_assoc, singleton_append]
    obtain ⟨rfl, rfl⟩ := append_inj hsplit (by rw [hlength, length_append]; rfl)
    rw [append_assoc, singleton_append, length_append, length_singleton] at hmatch
    rw [nil_append, nil_append, append_assoc, singleton_append, cutAll_of_word hmatch,
      hsearch.cutAll_eq_self_iff]
    apply h.not_found (z := []) _ _ hsearch
    · rw [append_nil, nil_append, append_assoc, singleton_append]
      exact ⟨c :: v, rfl⟩
    · simp only [length_append, length_nil, length_singleton]
      omega
  | cons a x ih =>
    have hnone : matchAt c (a :: (x ++ (w ++ y))) = none := by
      cases hmatch : matchAt c (a :: (x ++ (w ++ y))) with
      | none => rfl
      | some n =>
        have heq := h.only c _ (suffix_refl _) (by rw [cons_append, hmatch]; rfl)
        have hlength := congrArg List.length heq
        simp only [length_append, length_cons] at hlength
        omega
    rw [cons_append, cutAll_of_none hnone, cons_append]
    congr 1
    exact ih ⟨h.stable, h.word, fun d r hr => h.only d r (hr.trans (suffix_cons c _))⟩

theorem cuts_eq (h : Lone matchAt c x w y) (hsearch : Search matchAt) {a : α} {u t z : List α}
    (hcuts : Cuts matchAt a u t) (hu : a :: (u ++ z) <:+ c :: (x ++ (w ++ y))) :
    t = u ∨ ∃ v v', u = v ++ (w ++ v') ∧ t = v ++ v' ∧ v' ++ z = y := by
  induction hcuts with
  | last a b => exact .inl rfl
  | @letter a b s t hcuts ih =>
    have hsuffix : b :: (s ++ z) <:+ c :: (x ++ (w ++ y)) := (suffix_cons a _).trans hu
    rcases ih hsuffix with rfl | ⟨v, v', rfl, rfl, hz⟩
    · exact .inl rfl
    · exact .inr ⟨b :: v, v', rfl, rfl, hz⟩
  | @word a v d s t hmatch hcuts ih =>
    have hword := h.stable a _ _ hmatch z
    have heq : (v ++ d :: s) ++ z = w ++ y := h.only a _ hu (by rw [hword]; rfl)
    have hlength : v.length + 1 = w.length := by
      rw [heq, h.stable a w _ (h.word a) y] at hword
      exact (Option.some.inj hword).symm
    have hsplit : (v ++ [d]) ++ (s ++ z) = w ++ y := by
      rw [← heq]
      simp only [append_assoc, cons_append, nil_append]
    obtain ⟨rfl, rfl⟩ := append_inj hsplit (by rw [length_append, ← hlength]; rfl)
    have hnot : ¬ Found matchAt d s := by
      apply h.not_found (z := z) _ _ hsearch
      · refine List.IsSuffix.trans ⟨a :: v, ?_⟩ hu
        simp only [cons_append, append_assoc]
      · simp only [length_append, length_singleton]
        omega
    rw [hcuts.eq_of_not_found hnot]
    refine .inr ⟨[], s, ?_, rfl, rfl⟩
    simp only [nil_append, append_assoc, singleton_append]

end Lone

end

/-! ## One pass after the other -/

theorem exists_part_of_cutPasses {passes : List (α → List α → Option Nat)}
    (hpasses : ∀ matchAt ∈ passes, Search matchAt) {c a : α} {s t : List α} (hne : t ≠ [])
    (ht : a :: t <:+: c :: cutPasses passes c s) :
    ∃ u, u ≠ [] ∧ a :: u <:+: c :: s ∧ CutsBy passes a u t := by
  induction passes generalizing s with
  | nil => exact ⟨t, hne, ht, rfl⟩
  | cons matchAt passes ih =>
    rw [forall_mem_cons] at hpasses
    obtain ⟨u', hne', hu', hcutsBy⟩ := ih hpasses.2 ht
    obtain ⟨u, hu, hcuts⟩ := hpasses.1.exists_part_of_cutAll hne' hu'
    exact ⟨u, hcuts.ne_nil.1, hu, u', hcuts, hcutsBy⟩

theorem cutPasses_sublist {passes : List (α → List α → Option Nat)}
    (hpasses : ∀ matchAt ∈ passes, Search matchAt) (c : α) (s : List α) :
    (cutPasses passes c s).Sublist s := by
  induction passes generalizing s with
  | nil => exact List.Sublist.refl s
  | cons matchAt passes ih =>
    rw [forall_mem_cons] at hpasses
    exact (ih hpasses.2 _).trans (hpasses.1.cutAll_sublist c s)

theorem cutPasses_eq_self_iff {passes : List (α → List α → Option Nat)}
    (hpasses : ∀ matchAt ∈ passes, Search matchAt) (c : α) (s : List α) :
    cutPasses passes c s = s ↔ ∀ matchAt ∈ passes, ¬ Found matchAt c s := by
  induction passes with
  | nil => exact iff_of_true rfl (forall_mem_nil _)
  | cons matchAt passes ih =>
    rw [forall_mem_cons] at hpasses ⊢
    rw [← hpasses.1.cutAll_eq_self_iff]
    constructor
    · intro heq
      have hself : cutAll matchAt c s = s := by
        apply (hpasses.1.cutAll_sublist c s).eq_of_length_le
        calc s.length = (cutPasses passes c (cutAll matchAt c s)).length := congrArg List.length heq.symm
          _ ≤ (cutAll matchAt c s).length := (cutPasses_sublist hpasses.2 c _).length_le
      refine ⟨hself, (ih hpasses.2).1 ?_⟩
      calc cutPasses passes c s = cutPasses passes c (cutAll matchAt c s) := by rw [hself]
        _ = s := heq
    · rintro ⟨hself, hrest⟩
      calc cutPasses (matchAt :: passes) c s = cutPasses passes c s := congrArg (cutPasses passes c) hself
        _ = s := (ih hpasses.2).2 hrest

theorem cutPasses_append_cons (before after : List (α → List α → Option Nat))
    (matchAt : α → List α → Option Nat) (c : α) (s : List α) :
    cutPasses (before ++ matchAt :: after) c s =
      cutPasses after c (cutAll matchAt c (cutPasses before c s)) := by
  rw [cutPasses, foldl_append, foldl_cons]
  rfl

end RavBot.Lib
