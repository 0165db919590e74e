import RavBot.Lib.Text

/-!
# Paths

Paths as `std::filesystem::path` has them on a POSIX system: whether a path begins at the root, and its names
in order.  A path that ends in a slash has an empty last name.  There are no symbolic links, so that the file
that a path leads to is found from its names alone (`resolve`).
-/

open List

namespace RavBot.Lib

structure Path where
  absolute : Bool
  names : List (List Char)
deriving DecidableEq, Repr

namespace Path

/-- The path that a string spells. -/
def parse (s : List Char) : Path where
  absolute := s.head? = some '/'
  names :=
    let names := (Text.pieces '/' s).filter (· ≠ [])
    if names ≠ [] ∧ s.getLast? = some '/' then names ++ [[]] else names

/-- `empty`. -/
def isEmpty (p : Path) : Bool := !p.absolute && p.names.isEmpty

/-- `parent_path`. -/
def parent (p : Path) : Path := { p with names := p.names.dropLast }

/-- `operator/`. -/
def append (p q : Path) : Path :=
  if q.absolute then q else { p with names := p.names.filter (· ≠ []) ++ q.names }

/-- A name more in the normal form of a path, of which the last name comes first. -/
def push (absolute : Bool) (stack : List (List Char)) (name : List Char) : List (List Char) :=
  if name = [] ∨ name = ['.'] then stack
  else if name = ['.', '.'] then
    match stack with
    | [] => if absolute then [] else [name]
    | top :: rest => if top = ['.', '.'] then name :: stack else rest
  else name :: stack

/-- The names of `lexically_normal`, but for an empty last one. -/
def normalNames (p : Path) : List (List Char) := (p.names.foldl (push p.absolute) []).reverse

/-- The names of the file that a path leads to from the current directory, from the root on. -/
def resolve (cwd : List (List Char)) (p : Path) : List (List Char) :=
  normalNames ⟨true, if p.absolute then p.names else cwd ++ p.names⟩

/-- The text of the path from the root on that has the given names. -/
def render (names : List (List Char)) : List Char := names.flatMap ('/' :: ·)

/-! ## The normal form of a path from the root -/

/-- The names from the root on to which names lead, of which the last comes first, from where other
names led. -/
def walk (stack names : List (List Char)) : List (List Char) := names.foldl (push true) stack

/-- The names of the normal form of a path from the root on. -/
def namesOf (s : List Char) : List (List Char) := normalNames ⟨true, (parse s).names⟩

theorem normalNames_parse {s : List Char} (h : s.head? = some '/') :
    (parse s).normalNames = namesOf s := by
  rw [namesOf, ← decide_eq_true h]
  rfl

theorem push_skip {name : List Char} (h : name = [] ∨ name = ['.']) (absolute : Bool)
    (stack : List (List Char)) : push absolute stack name = stack := by
  rw [push.eq_def, if_pos h]

theorem push_name {name : List Char} (h : ¬ (name = [] ∨ name = ['.'])) (hdots : name ≠ ['.', '.'])
    (absolute : Bool) (stack : List (List Char)) : push absolute stack name = name :: stack := by
  rw [push.eq_def, if_neg h, if_neg hdots]

theorem push_up {top : List Char} (h : top ≠ ['.', '.']) (absolute : Bool)
    (rest : List (List Char)) : push absolute (top :: rest) ['.', '.'] = rest := by
  rw [push.eq_def, if_neg (by decide), if_pos rfl]
  exact if_neg h

theorem walk_filter (stack names : List (List Char)) :
    walk stack (names.filter (· ≠ [])) = walk stack names := by
  induction names generalizing stack with
  | nil => rfl
  | cons name names ih =>
    by_cases h : name = []
    · rw [filter_cons_of_neg (by simpa using h), ih, walk, walk, foldl_cons, push_skip (.inl h)]
    · rw [filter_cons_of_pos (by simpa using h), walk, foldl_cons]
      exact ih _

theorem namesOf_eq (s : List Char) : namesOf s = (walk [] (Text.pieces '/' s)).reverse := by
  rw [← walk_filter [] (Text.pieces '/' s)]
  show ((parse s).names.foldl (push true) []).reverse = _
  rw [parse]
  dsimp only
  split_ifs
  · rw [foldl_append]
    rfl
  · rfl

theorem namesOf_append (s t : List Char) :
    namesOf (s ++ '/' :: t) = (walk (namesOf s).reverse (Text.pieces '/' t)).reverse := by
  rw [namesOf_eq, namesOf_eq, reverse_reverse, ← walk_filter [] (Text.pieces _ _),
    Text.filter_pieces_append, walk, foldl_append]
  show (walk (walk [] _) _).reverse = _
  rw [walk_filter, walk_filter]

/-- A name as it is in a normal form from the root on. -/
structure IsProper (name : List Char) : Prop where
  ne_nil : name ≠ []
  ne_dot : name ≠ ['.']
  ne_dots : name ≠ ['.', '.']
  noSlash : '/' ∉ name

variable {stack names : List (List Char)}

theorem walk_proper (hstack : ∀ name ∈ stack, IsProper name)
    (hnames : ∀ name ∈ names, '/' ∉ name) : ∀ name ∈ walk stack names, IsProper name := by
  induction names generalizing stack with
  | nil => exact hstack
  | cons name names ih =>
    rw [forall_mem_cons] at hnames
    refine ih ?_ hnames.2
    by_cases hskip : name = [] ∨ name = ['.']
    · rw [push_skip hskip]
      exact hstack
    · by_cases hdots : name = ['.', '.']
      · subst hdots
        cases stack with
        | nil => exact hstack
        | cons top rest =>
          rw [forall_mem_cons] at hstack
          rw [push_up hstack.1.ne_dots]
          exact hstack.2
      · rw [push_name hskip hdots, forall_mem_cons]
        rw [not_or] at hskip
        exact ⟨⟨hskip.1, hskip.2, hdots, hnames.1⟩, hstack⟩

theorem namesOf_proper (s : List Char) : ∀ name ∈ namesOf s, IsProper name := by
  rw [namesOf_eq]
  intro name hname
  exact walk_proper (fun _ h => absurd h not_mem_nil) (fun _ h => Text.notMem_of_mem_pieces h) name
    (mem_reverse.1 hname)

theorem walk_of_proper (h : ∀ name ∈ names, IsProper name) :
    walk stack names = names.reverse ++ stack := by
  induction names generalizing stack with
  | nil => rfl
  | cons name names ih =>
    rw [forall_mem_cons] at h
    have hskip : ¬ (name = [] ∨ name = ['.']) := not_or.2 ⟨h.1.ne_nil, h.1.ne_dot⟩
    show walk (push true stack name) names = _
    rw [push_name hskip h.1.ne_dots, ih h.2, reverse_cons, append_assoc]
    rfl

theorem walk_dots (stack : List (List Char)) (n : Nat) : walk stack (List.replicate n ['.']) = stack := by
  induction n with
  | zero => rfl
  | succ n ih =>
    rw [replicate_succ]
    exact ih

theorem walk_up (h : ∀ name ∈ stack, IsProper name) {n : Nat}
    (hn : stack.length ≤ n) : walk stack (List.replicate n ['.', '.']) = [] := by
  induction n generalizing stack with
  | zero => exact length_eq_zero_iff.1 (Nat.le_zero.1 hn)
  | succ n ih =>
    rw [replicate_succ]
    cases stack with
    | nil => exact ih h (Nat.zero_le n)
    | cons top rest =>
      rw [forall_mem_cons] at h
      show walk (push true (top :: rest) ['.', '.']) _ = _
      rw [push_up h.1.ne_dots]
      exact ih h.2 (Nat.le_of_succ_le_succ hn)

/-- The text of names that each end in a slash. -/
def spell (names : List (List Char)) : List Char := names.flatMap (· ++ ['/'])

theorem pieces_spell (h : ∀ name ∈ names, '/' ∉ name) : Text.pieces '/' (spell names) = names := by
  induction names with
  | nil => rfl
  | cons name names ih =>
    rw [forall_mem_cons] at h
    have hsplit : spell (name :: names) = name ++ '/' :: spell names := by
      rw [spell, flatMap_cons, append_assoc]
      rfl
    rw [hsplit, Text.pieces_append h.1, ih h.2]

end Path

end RavBot.Lib
