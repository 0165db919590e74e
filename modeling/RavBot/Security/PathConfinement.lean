import RavBot.Security.Sandbox

/-!
# Where the allowed paths lead

`IsPathAllowed` compares the strings of paths, which it does not normalize.  From any allowed
directory a path can go on with dots, which no finite list of denied strings forbids for every
length, then up to the root with pairs of dots, and from there to any place.  So a configuration
confines its paths only when it allows none, or does not restrict them (`confines_iff`).
-/

open List

namespace RavBot.Security.Sandbox

open RavBot.Lib

def IsAbsolute (path : String) : Prop := path.toList.head? = some '/'

/-- Whether a path is one from the root on can be computed. -/
instance (path : String) : Decidable (IsAbsolute path) :=
  inferInstanceAs (Decidable (path.toList.head? = some '/'))

/-- In normal form, a path is that of a directory or of something in it, name by name. -/
def IsIn (path directory : String) : Prop :=
  (Path.parse directory.toList).normalNames <+: (Path.parse path.toList).normalNames

def Confined (allowed denied : List String) (path : String) : Prop :=
  (∃ a ∈ allowed, IsIn path a) ∧ ∀ d ∈ denied, ¬ IsIn path d

/-! ## What is allowed -/

theorem absolute_eq (cwd : List Char) {path : String} (h : IsAbsolute path) :
    absolute cwd path.toList = some path.toList := by
  have hne : path.toList ≠ [] := by
    intro hnil
    rw [IsAbsolute, hnil] at h
    cases h
  rw [absolute, if_neg hne]
  exact if_pos h

theorem beginsWithAny_eq (cwd resolved : List Char) {paths : List String}
    (h : ∀ path ∈ paths, IsAbsolute path) :
    beginsWithAny cwd resolved paths = some (decide (∃ path ∈ paths, path.toList <+: resolved)) := by
  induction paths with
  | nil => simp [beginsWithAny]
  | cons path paths ih =>
    rw [forall_mem_cons] at h
    rw [beginsWithAny, absolute_eq cwd h.1, Option.bind_some, ih h.2]
    simp only [Text.find_eq_zero_iff]
    by_cases hbegin : path.toList <+: resolved
    · simp [hbegin]
    · simp [hbegin]

variable {denied : List String}

theorem isPathAllowed_iff (cwd : List Char) {allowed : List String} (hne : allowed ≠ [])
    (hallowed : ∀ a ∈ allowed, IsAbsolute a) (hdenied : ∀ d ∈ denied, IsAbsolute d)
    {path : String} (hpath : IsAbsolute path) :
    isPathAllowed cwd allowed denied path = some true ↔
      (∃ a ∈ allowed, a.toList <+: path.toList) ∧ ∀ d ∈ denied, ¬ d.toList <+: path.toList := by
  rw [isPathAllowed, absolute_eq cwd hpath, Option.bind_some, beginsWithAny_eq cwd _ hdenied,
    Option.bind_some, if_neg hne, beginsWithAny_eq cwd _ hallowed]
  by_cases h : ∃ d ∈ denied, d.toList <+: path.toList
  · simp only [h, decide_true, if_true]
    refine iff_of_false (by simp) fun hall => ?_
    obtain ⟨d, hd, hbegin⟩ := h
    exact hall.2 d hd hbegin
  · simp only [h, decide_false, Bool.false_eq_true, if_false, Option.some.injEq, decide_eq_true_eq]
    refine (and_iff_left fun d hd hbegin => ?_).symm
    exact h ⟨d, hd, hbegin⟩

/-! ## Ways out -/

/-- The way from a directory to the place with these names, by so many dots. -/
def wayTo (dots : Nat) (a : List Char) (names : List (List Char)) : List Char :=
  a ++ '/' :: Path.spell (List.replicate dots ['.'] ++
    (List.replicate (Path.namesOf a).length ['.', '.'] ++ names))

theorem namesOf_wayTo (dots : Nat) (a : List Char) {names : List (List Char)}
    (h : ∀ name ∈ names, Path.IsProper name) : Path.namesOf (wayTo dots a names) = names := by
  have hslash : ∀ name ∈ List.replicate dots ['.'] ++
      (List.replicate (Path.namesOf a).length ['.', '.'] ++ names), '/' ∉ name := by
    intro name hname
    rcases mem_append.1 hname with hname | hname
    · rw [eq_of_mem_replicate hname]
      decide
    · rcases mem_append.1 hname with hname | hname
      · rw [eq_of_mem_replicate hname]
        decide
      · exact (h name hname).noSlash
  have hproper : ∀ name ∈ (Path.namesOf a).reverse, Path.IsProper name :=
    fun name hname => Path.namesOf_proper a name (mem_reverse.1 hname)
  have hup := Path.walk_up hproper (length_reverse).le
  rw [wayTo, Path.namesOf_append, Path.pieces_spell hslash, Path.walk, foldl_append, foldl_append]
  show (Path.walk (Path.walk (Path.walk _ _) _) _).reverse = _
  rw [Path.walk_dots, hup, Path.walk_of_proper h, append_nil, reverse_reverse]

theorem namesOf_eq_append {a d : List Char} {dots : Nat}
    (h : d <+: a ++ '/' :: Path.spell (List.replicate dots ['.'])) (hnot : ¬ d <+: a) :
    Path.namesOf d = Path.namesOf a := by
  have hdots {e : List Char} {n : Nat} (he : e <+: Path.spell (List.replicate n ['.']))
      (stack : List (List Char)) : Path.walk stack (Text.pieces '/' e) = stack := by
    induction n generalizing e with
    | zero =>
      rw [prefix_nil.1 he]
      rfl
    | succ n ih =>
      have hsplit : Path.spell (List.replicate (n + 1) ['.']) =
          '.' :: '/' :: Path.spell (List.replicate n ['.']) := rfl
      rw [hsplit] at he
      rcases prefix_cons_iff.1 he with rfl | ⟨e₁, rfl, he₁⟩
      · rfl
      · rcases prefix_cons_iff.1 he₁ with rfl | ⟨e₂, rfl, he₂⟩
        · rfl
        · have hpieces : Text.pieces '/' ('.' :: '/' :: e₂) = ['.'] :: Text.pieces '/' e₂ := by
            have hdot : '/' ∉ ['.'] := by decide
            exact Text.pieces_append hdot e₂
          rw [hpieces]
          exact ih he₂
  rcases prefix_or_prefix_of_prefix h (prefix_append a _) with hd | ⟨e, rfl⟩
  · exact absurd hd hnot
  · rw [prefix_append_right_inj] at h
    rcases prefix_cons_iff.1 h with rfl | ⟨e₁, rfl, he₁⟩
    · rw [append_nil] at hnot
      exact absurd prefix_rfl hnot
    · rw [Path.namesOf_append, hdots he₁, reverse_reverse]

theorem isIn_iff {path directory : String} (hpath : IsAbsolute path)
    (hdirectory : IsAbsolute directory) :
    IsIn path directory ↔ Path.namesOf directory.toList <+: Path.namesOf path.toList := by
  rw [IsIn, Path.normalNames_parse hpath, Path.normalNames_parse hdirectory]

/-- From an allowed directory that no denied string begins, the way to any place is allowed with enough
dots, if the directory itself is in no denied one. -/
theorem exists_wayTo {a : List Char}
    (hdenied : ∀ d ∈ denied, ¬ d.toList <+: a)
    (hout : ∀ d ∈ denied, Path.namesOf d.toList ≠ Path.namesOf a) (names : List (List Char)) :
    ∃ dots, ∀ d ∈ denied, ¬ d.toList <+: wayTo dots a names := by
  obtain ⟨dots, hlong⟩ : ∃ dots, ∀ d ∈ denied, d.toList.length ≤ dots := by
    clear hdenied hout
    induction denied with
    | nil => exact ⟨0, nofun⟩
    | cons d denied ih =>
      obtain ⟨dots, ih⟩ := ih
      refine ⟨max d.toList.length dots, fun d' hd' => ?_⟩
      rcases mem_cons.1 hd' with rfl | hd'
      · exact le_max_left _ _
      · exact le_max_of_le_right (ih d' hd')
  refine ⟨dots, fun d hd hbegin => ?_⟩
  -- the denied string is too short to reach beyond the dots
  have hlength (n : Nat) : (Path.spell (List.replicate n ['.'])).length = 2 * n := by
    induction n with
    | zero => rfl
    | succ n ih =>
      rw [replicate_succ, Path.spell, flatMap_cons, length_append, ← Path.spell, ih]
      simp only [length_append, length_cons, length_nil]
      omega
  have hsplit : wayTo dots a names = (a ++ '/' :: Path.spell (List.replicate dots ['.'])) ++
      Path.spell (List.replicate (Path.namesOf a).length ['.', '.'] ++ names) := by
    rw [wayTo, append_assoc, cons_append, Path.spell, flatMap_append]
    rfl
  have hshort : d.toList <+: a ++ '/' :: Path.spell (List.replicate dots ['.']) := by
    rw [hsplit] at hbegin
    refine prefix_of_prefix_length_le hbegin (prefix_append _ _) ?_
    have hd' := hlong d hd
    rw [length_append, length_cons, hlength]
    omega
  exact hout d hd (namesOf_eq_append hshort (hdenied d hd))

/-- A place is reached from an allowed directory that no denied string begins: from the directory
itself, where this is in a denied one, and else by a way out. -/
theorem exists_allowed (cwd : List Char) {allowed : List String} {a : String}
    (ha : a ∈ allowed) (hallowed : ∀ a ∈ allowed, IsAbsolute a)
    (hdenied : ∀ d ∈ denied, IsAbsolute d) (hfree : ∀ d ∈ denied, ¬ d.toList <+: a.toList)
    {names : List (List Char)} (hnames : ∀ name ∈ names, Path.IsProper name) :
    ∃ path, IsAbsolute path ∧ isPathAllowed cwd allowed denied path = some true ∧
      ((∃ d ∈ denied, IsIn path d) ∨ Path.namesOf path.toList = names) := by
  have hne : allowed ≠ [] := ne_nil_of_mem ha
  by_cases hout : ∀ d ∈ denied, Path.namesOf d.toList ≠ Path.namesOf a.toList
  · obtain ⟨dots, hway⟩ := exists_wayTo hfree hout names
    have hbegin : a.toList <+: (String.ofList (wayTo dots a.toList names)).toList := by
      rw [String.toList_ofList, wayTo]
      exact prefix_append _ _
    have habsolute : IsAbsolute (String.ofList (wayTo dots a.toList names)) := by
      have hhead : a.toList.head? = some '/' := hallowed a ha
      rw [IsAbsolute, String.toList_ofList, wayTo, head?_append, hhead]
      rfl
    refine ⟨_, habsolute, ?_, .inr ?_⟩
    · rw [isPathAllowed_iff cwd hne hallowed hdenied habsolute]
      refine ⟨⟨a, ha, hbegin⟩, ?_⟩
      rw [String.toList_ofList]
      exact hway
    · rw [String.toList_ofList]
      exact namesOf_wayTo dots a.toList hnames
  · push Not at hout
    obtain ⟨d, hd, hsame⟩ := hout
    refine ⟨a, hallowed a ha, ?_, .inl ⟨d, hd, ?_⟩⟩
    · rw [isPathAllowed_iff cwd hne hallowed hdenied (hallowed a ha)]
      exact ⟨⟨a, ha, prefix_rfl⟩, hfree⟩
    · refine (isIn_iff (hallowed a ha) (hdenied d hd)).2 ?_
      simp only [hsame, prefix_rfl]

/-- **Confinement.**  With lists of paths from the root on, the first not empty, every path that is
allowed is in an allowed directory and in no denied one if and only if every allowed string begins
with a denied one, so that no path is allowed, or nothing is denied and the root is allowed, so
that every path may be. -/
theorem confines_iff (cwd : List Char) {allowed denied : List String} (hne : allowed ≠ [])
    (hallowed : ∀ a ∈ allowed, IsAbsolute a) (hdenied : ∀ d ∈ denied, IsAbsolute d) :
    (∀ path, IsAbsolute path → isPathAllowed cwd allowed denied path = some true →
        Confined allowed denied path) ↔
      (∀ a ∈ allowed, ∃ d ∈ denied, d.toList <+: a.toList) ∨
        denied = [] ∧ ∃ a ∈ allowed, (Path.parse a.toList).normalNames = [] := by
  constructor
  · rintro hconfined
    by_contra hnot
    rw [not_or] at hnot
    obtain ⟨hopen, hrestricts⟩ := hnot
    push Not at hopen
    obtain ⟨a, ha, hfree⟩ := hopen
    cases denied with
    | nil =>
      -- nothing is denied: the way to the root leaves every allowed directory
      have hnone : ∀ name ∈ ([] : List (List Char)), Path.IsProper name := nofun
      obtain ⟨path, hpath, hyes, hin | hroot⟩ :=
        exists_allowed cwd ha hallowed hdenied hfree hnone
      · obtain ⟨d, hd, -⟩ := hin
        exact not_mem_nil hd
      · obtain ⟨b, hb, hin⟩ := (hconfined path hpath hyes).1
        rw [isIn_iff hpath (hallowed b hb), hroot, prefix_nil,
          ← Path.normalNames_parse (hallowed b hb)] at hin
        exact hrestricts ⟨rfl, b, hb, hin⟩
    | cons d denied =>
      -- the way to a denied directory
      obtain ⟨path, hpath, hyes, hin | hplace⟩ := exists_allowed cwd ha hallowed hdenied hfree
        (Path.namesOf_proper d.toList)
      · obtain ⟨d', hd', hin⟩ := hin
        exact (hconfined path hpath hyes).2 d' hd' hin
      · refine (hconfined path hpath hyes).2 d mem_cons_self ?_
        refine (isIn_iff hpath (hdenied d mem_cons_self)).2 ?_
        simp only [hplace, prefix_rfl]
  · rintro (hclosed | ⟨rfl, a, ha, hroot⟩) path hpath hyes
    · obtain ⟨⟨a, ha, hbegin⟩, hfree⟩ :=
        (isPathAllowed_iff cwd hne hallowed hdenied hpath).1 hyes
      obtain ⟨d, hd, hdenies⟩ := hclosed a ha
      exact absurd (hdenies.trans hbegin) (hfree d hd)
    · refine ⟨⟨a, ha, ?_⟩, nofun⟩
      rw [IsIn, hroot]
      exact nil_prefix

/-- Where the root is allowed and nothing denied, a path is where it may be. -/
theorem confines_root : Confined ["/srv", "/"] [] "/etc" :=
  (confines_iff [] (by decide) (by decide) (by decide)).2 (.inr ⟨rfl, "/", by decide, by decide⟩) "/etc"
    (by decide) (by decide)

/-- A path that leaves an allowed directory by two dots is allowed. -/
theorem not_confined_dots : ¬ ∀ cwd allowed denied path, allowed ≠ [] →
    (∀ a ∈ allowed, IsAbsolute a) → (∀ d ∈ denied, IsAbsolute d) → IsAbsolute path →
      isPathAllowed cwd allowed denied path = some true → Confined allowed denied path := by
  intro h
  obtain ⟨⟨a, ha, hin⟩, -⟩ := h [] ["/tmp"] [] "/tmp/../etc" (by decide) (by decide) (by decide)
    (by decide) (by decide)
  rw [mem_singleton.1 ha] at hin
  revert hin
  rw [IsIn]
  decide

end RavBot.Security.Sandbox
