import Mathlib.Algebra.Group.Nat.Defs
import RavBot.Lib.Occurrence

/-!
# Internet addresses

Addresses of version 4 and of version 6 and the ways to write them, and the blocks of addresses that are
not on the public internet.  An address of version 4 has one text.  One of version 6 has many: the groups
may have leading zeros and letters in either case, one run of zero groups may be left out, and the last two
groups may be written as an address of version 4.
-/

open List

namespace RavBot.Lib

/-! ## Version 4 -/

/-- An address of version 4: its four bytes. -/
structure Ipv4 where
  b₁ : UInt8
  b₂ : UInt8
  b₃ : UInt8
  b₄ : UInt8

namespace Ipv4

def decimal (b : UInt8) : List Char := Nat.toDigits 10 b.toNat

def text (a : Ipv4) : List Char :=
  decimal a.b₁ ++ '.' :: (decimal a.b₂ ++ '.' :: (decimal a.b₃ ++ '.' :: decimal a.b₄))

def value (a : Ipv4) : Nat :=
  ((a.b₁.toNat * 256 + a.b₂.toNat) * 256 + a.b₃.toNat) * 256 + a.b₄.toNat

/-- The address is in the block of those that agree with `first` in the first `bits` bits. -/
def InBlock (a first : Ipv4) (bits : Nat) : Prop := a.value / 2 ^ (32 - bits) = first.value / 2 ^ (32 - bits)

instance (a first : Ipv4) (bits : Nat) : Decidable (a.InBlock first bits) :=
  inferInstanceAs (Decidable (_ = _))

def IsLoopback (a : Ipv4) : Prop := a.InBlock ⟨127, 0, 0, 0⟩ 8

def IsPrivate (a : Ipv4) : Prop :=
  a.InBlock ⟨10, 0, 0, 0⟩ 8 ∨ a.InBlock ⟨172, 16, 0, 0⟩ 12 ∨ a.InBlock ⟨192, 168, 0, 0⟩ 16

def IsLinkLocal (a : Ipv4) : Prop := a.InBlock ⟨169, 254, 0, 0⟩ 16

def IsUnspecified (a : Ipv4) : Prop := a.InBlock ⟨0, 0, 0, 0⟩ 32

/-- An address that is not to be reached from outside of its network. -/
def IsInternal (a : Ipv4) : Prop := a.IsLoopback ∨ a.IsPrivate ∨ a.IsLinkLocal ∨ a.IsUnspecified

/-- Addresses for other uses: those of this network and of carriers, for protocols, documentation and
tests, for groups, and reserved ones. -/
def IsReserved (a : Ipv4) : Prop :=
  a.InBlock ⟨0, 0, 0, 0⟩ 8 ∨ a.InBlock ⟨100, 64, 0, 0⟩ 10 ∨ a.InBlock ⟨192, 0, 0, 0⟩ 24 ∨
    a.InBlock ⟨192, 0, 2, 0⟩ 24 ∨ a.InBlock ⟨198, 18, 0, 0⟩ 15 ∨ a.InBlock ⟨198, 51, 100, 0⟩ 24 ∨
      a.InBlock ⟨203, 0, 113, 0⟩ 24 ∨ a.InBlock ⟨224, 0, 0, 0⟩ 3

def IsPublic (a : Ipv4) : Prop := ¬ a.IsInternal ∧ ¬ a.IsReserved

section Blocks

variable (a first : Ipv4)

theorem value_div : a.value / 2 ^ 24 = a.b₁.toNat ∧ a.value / 2 ^ 20 = a.b₁.toNat * 16 + a.b₂.toNat / 16 ∧
    a.value / 2 ^ 16 = a.b₁.toNat * 256 + a.b₂.toNat ∧ a.value / 2 ^ 0 = a.value := by
  have h₁ := a.b₁.toNat_lt
  have h₂ := a.b₂.toNat_lt
  have h₃ := a.b₃.toNat_lt
  have h₄ := a.b₄.toNat_lt
  rw [value]
  refine ⟨?_, ?_, ?_, ?_⟩ <;> omega

theorem inBlock_8 : a.InBlock first 8 ↔ a.b₁ = first.b₁ := by
  rw [InBlock, show 32 - 8 = 24 from rfl, a.value_div.1, first.value_div.1, UInt8.toNat_inj]

theorem inBlock_12 : a.InBlock first 12 ↔ a.b₁ = first.b₁ ∧ a.b₂.toNat / 16 = first.b₂.toNat / 16 := by
  have h := a.b₂.toNat_lt
  have h' := first.b₂.toNat_lt
  rw [InBlock, show 32 - 12 = 20 from rfl, a.value_div.2.1, first.value_div.2.1, ← UInt8.toNat_inj]
  omega

theorem inBlock_16 : a.InBlock first 16 ↔ a.b₁ = first.b₁ ∧ a.b₂ = first.b₂ := by
  have h := a.b₂.toNat_lt
  have h' := first.b₂.toNat_lt
  rw [InBlock, show 32 - 16 = 16 from rfl, a.value_div.2.2.1, first.value_div.2.2.1, ← UInt8.toNat_inj,
    ← UInt8.toNat_inj]
  omega

theorem inBlock_32 : a.InBlock first 32 ↔
    a.b₁ = first.b₁ ∧ a.b₂ = first.b₂ ∧ a.b₃ = first.b₃ ∧ a.b₄ = first.b₄ := by
  have h₂ := a.b₂.toNat_lt
  have h₃ := a.b₃.toNat_lt
  have h₄ := a.b₄.toNat_lt
  have h₂' := first.b₂.toNat_lt
  have h₃' := first.b₃.toNat_lt
  have h₄' := first.b₄.toNat_lt
  rw [InBlock, show 32 - 32 = 0 from rfl, a.value_div.2.2.2, first.value_div.2.2.2, value, value,
    ← UInt8.toNat_inj, ← UInt8.toNat_inj, ← UInt8.toNat_inj, ← UInt8.toNat_inj]
  omega

end Blocks

theorem isInternal_iff (a : Ipv4) : a.IsInternal ↔ a.b₁ = 127 ∨ (a.b₁ = 10 ∨
    (a.b₁ = 172 ∧ a.b₂.toNat / 16 = 1) ∨ a.b₁ = 192 ∧ a.b₂ = 168) ∨ (a.b₁ = 169 ∧ a.b₂ = 254) ∨
      (a.b₁ = 0 ∧ a.b₂ = 0 ∧ a.b₃ = 0 ∧ a.b₄ = 0) := by
  rw [IsInternal, IsLoopback, IsPrivate, IsLinkLocal, IsUnspecified, inBlock_8, inBlock_8, inBlock_12,
    inBlock_16, inBlock_16, inBlock_32]
  rfl

theorem isDigit_of_mem_decimal {b : UInt8} {c : Char} (h : c ∈ decimal b) : c.isDigit = true :=
  Nat.isDigit_of_mem_toDigits (by decide) (by decide) h

theorem mem_text {a : Ipv4} {c : Char} (h : c ∈ a.text) : c.isDigit = true ∨ c = '.' := by
  simp only [text, mem_append, mem_cons] at h
  rcases h with h | rfl | h | rfl | h | rfl | h
  all_goals first | exact .inl (isDigit_of_mem_decimal h) | exact .inr rfl

end Ipv4

/-! ## Version 6 -/

/-- A group of an address of version 6: one to four hexadecimal digits. -/
structure HexGroup where
  digits : List Char
  length_pos : 0 < digits.length
  length_le : digits.length ≤ 4
  isHex : ∀ c ∈ digits, c.isDigit = true ∨ c ∈ "abcdefABCDEF".toList

def hexDigit (c : Char) : Nat :=
  if c.isDigit then c.toNat - '0'.toNat
  else if 'a' ≤ c then c.toNat - 'a'.toNat + 10
  else c.toNat - 'A'.toNat + 10

def HexGroup.value (g : HexGroup) : Nat := g.digits.foldl (fun n c => 16 * n + hexDigit c) 0

/-- A way to write an address of version 6: the groups before the groups that are left out, those after
them, and the last two groups when they are written as an address of version 4.  `back` is `none` where no
groups are left out. -/
structure Ipv6 where
  front : List HexGroup
  back : Option (List HexGroup)
  tail : Option Ipv4
  length_eq : back = none → front.length + 2 * tail.toList.length = 8
  length_le : ∀ groups ∈ back, front.length + groups.length + 2 * tail.toList.length ≤ 7

namespace Ipv6

/-- The groups of the address that an address of version 4 is. -/
def tailGroups (a : Ipv4) : List Nat := [a.value / 2 ^ 16, a.value % 2 ^ 16]

/-- The eight groups of the address. -/
def groups (a : Ipv6) : List Nat :=
  let front := a.front.map HexGroup.value
  let back := (a.back.getD []).map HexGroup.value
  let tail := a.tail.toList.flatMap tailGroups
  front ++ List.replicate (8 - front.length - back.length - tail.length) 0 ++ back ++ tail

/-- Texts of groups, and of an address of version 4 after them. -/
def pieces (groups : List HexGroup) (tail : Option Ipv4) : List (List Char) :=
  groups.map HexGroup.digits ++ tail.toList.map Ipv4.text

/-- The address as it is written. -/
def text (a : Ipv6) : List Char :=
  match a.back with
  | none => [':'].intercalate (pieces a.front a.tail)
  | some back =>
    [':'].intercalate (pieces a.front none) ++ ':' :: ':' :: [':'].intercalate (pieces back a.tail)

/-- An address of version 4 that is mapped into version 6. -/
def IsMapped (a : Ipv6) (b : Ipv4) : Prop := a.groups = [0, 0, 0, 0, 0, 0xffff] ++ tailGroups b

/-- An address that is not to be reached from outside of its network: loopback, unspecified, link-local, or
such an address of version 4. -/
def IsInternal (a : Ipv6) : Prop :=
  a.groups = [0, 0, 0, 0, 0, 0, 0, 1] ∨ a.groups = [0, 0, 0, 0, 0, 0, 0, 0] ∨
    (∃ first ∈ a.groups.head?, first / 2 ^ 6 = 0xfe80 / 2 ^ 6) ∨ ∃ b : Ipv4, a.IsMapped b ∧ b.IsInternal

/-- An address on the public internet: a global one. -/
def IsPublic (a : Ipv6) : Prop := ∃ first ∈ a.groups.head?, first / 2 ^ 13 = 0x2000 / 2 ^ 13

/-! ### Words in texts -/

/-- The texts of the groups, and of the address of version 4 after them. -/
def allPieces (a : Ipv6) : List (List Char) :=
  match a.back with
  | none => pieces a.front a.tail
  | some back => pieces a.front none ++ pieces back a.tail

theorem mem_pieces {groups : List HexGroup} {tail : Option Ipv4} {piece : List Char}
    (h : piece ∈ pieces groups tail) : piece ≠ [] ∧ ':' ∉ piece := by
  rw [pieces, mem_append, mem_map, mem_map] at h
  rcases h with ⟨g, -, rfl⟩ | ⟨v, -, rfl⟩
  · refine ⟨ne_nil_of_length_pos g.length_pos, fun h => ?_⟩
    rcases g.isHex ':' h with hdigit | hletter
    · exact absurd hdigit (by decide)
    · exact absurd hletter (by decide)
  · refine ⟨fun hnil => ?_, fun h => ?_⟩
    · have hdot : '.' ∈ v.text := mem_append_right _ mem_cons_self
      rw [hnil] at hdot
      cases hdot
    · rcases Ipv4.mem_text h with hdigit | hdot
      · exact absurd hdigit (by decide)
      · exact absurd hdot (by decide)

theorem mem_allPieces {a : Ipv6} {piece : List Char} (h : piece ∈ a.allPieces) :
    (∃ g : HexGroup, g.digits = piece) ∨ ∃ v ∈ a.tail, v.text = piece := by
  have hpieces {groups : List HexGroup} {tail : Option Ipv4} (h : piece ∈ pieces groups tail) :
      (∃ g : HexGroup, g.digits = piece) ∨ ∃ v ∈ tail, v.text = piece := by
    rw [pieces, mem_append, mem_map, mem_map] at h
    rcases h with ⟨g, -, hg⟩ | ⟨v, hv, heq⟩
    · exact .inl ⟨g, hg⟩
    · exact .inr ⟨v, Option.mem_toList.1 hv, heq⟩
  rw [allPieces] at h
  split at h
  · exact hpieces h
  · rcases mem_append.1 h with hfront | hback
    · rcases hpieces hfront with hg | ⟨v, ⟨⟩, -⟩
      exact .inl hg
    · exact hpieces hback

theorem text_mem_allPieces {a : Ipv6} {v : Ipv4} (h : v ∈ a.tail) : v.text ∈ a.allPieces := by
  have htail (groups : List HexGroup) : v.text ∈ pieces groups a.tail :=
    mem_append_right _ (mem_map_of_mem (Option.mem_toList.2 h))
  rw [allPieces]
  split
  · exact htail _
  · exact mem_append_right _ (htail _)

theorem isInfix_text_iff {p : List Char} (hne : p ≠ []) (hp : ':' ∉ p) (a : Ipv6) :
    p <:+: a.text ↔ ∃ piece ∈ a.allPieces, p <:+: piece := by
  rw [text, allPieces]
  cases a.back with
  | none => exact Occurrence.isInfix_intercalate_iff hne hp _
  | some back =>
    have hsecond (y : List Char) : p <:+: ':' :: y ↔ p <:+: y := by
      rw [← nil_append (':' :: y), Occurrence.isInfix_of_notMem_iff hp, infix_nil, or_iff_right hne]
    simp only [Occurrence.isInfix_of_notMem_iff hp, hsecond, Occurrence.isInfix_intercalate_iff hne hp,
      mem_append, or_and_right, exists_or]

section Colons

variable {c : Char} {l : List (List Char)}

theorem isInfix_colons_cut {x y : List Char} (hx : ':' ∉ x) :
    [':', ':', c] <:+: x ++ ':' :: y ↔ [':', c] <+: y ∨ [':', ':', c] <:+: y := by
  have hcut := @Occurrence.isInfix_cut_iff _ _ [] _ y [':', c] not_mem_nil hx
  rwa [and_iff_right nil_suffix] at hcut

theorem not_isPrefix_colon {x : List Char} (hx : x ≠ [] ∧ ':' ∉ x) (y : List Char) :
    ¬ [':', c] <+: [':'].intercalate (x :: l) ++ y := by
  obtain ⟨d, x, rfl⟩ := exists_cons_of_ne_nil hx.1
  obtain ⟨z, hz⟩ : ∃ z, [':'].intercalate ((d :: x) :: l) ++ y = d :: z := by
    cases l with
    | nil => exact ⟨x ++ y, by rw [intercalate_singleton, cons_append]⟩
    | cons x' l =>
      exact ⟨_, by rw [intercalate_cons_cons, append_assoc, append_assoc, cons_append]⟩
  rw [hz, cons_prefix_cons]
  rintro ⟨rfl, -⟩
  exact hx.2 mem_cons_self

theorem not_isInfix_colons (h : ∀ x ∈ l, x ≠ [] ∧ ':' ∉ x) : ¬ [':', ':', c] <:+: [':'].intercalate l := by
  induction l with
  | nil => exact fun hinfix => absurd (infix_nil.1 hinfix) (cons_ne_nil _ _)
  | cons x l ih =>
    rw [forall_mem_cons] at h
    cases l with
    | nil =>
      rw [intercalate_singleton]
      exact fun hinfix => h.1.2 ( hinfix.subset mem_cons_self)
    | cons x' l =>
      rw [intercalate_cons_cons, append_assoc, singleton_append, isInfix_colons_cut h.1.2]
      rintro (hpre | hinfix)
      · rw [← append_nil (List.intercalate _ _)] at hpre
        exact not_isPrefix_colon (h.2 x' mem_cons_self) [] hpre
      · exact ih h.2 hinfix

theorem isInfix_colons_iff (h : ∀ x ∈ l, x ≠ [] ∧ ':' ∉ x) (y : List Char) :
    [':', ':', c] <:+: [':'].intercalate l ++ ':' :: ':' :: y ↔
      [c] <+: y ∨ [':', ':', c] <:+: ':' :: y := by
  have hlast {x : List Char} (hx : ':' ∉ x) :
      [':', ':', c] <:+: x ++ ':' :: ':' :: y ↔ [c] <+: y ∨ [':', ':', c] <:+: ':' :: y := by
    rw [isInfix_colons_cut hx, cons_prefix_cons, and_iff_right rfl]
  induction l with
  | nil => exact hlast not_mem_nil
  | cons x l ih =>
    rw [forall_mem_cons] at h
    cases l with
    | nil =>
      rw [intercalate_singleton]
      exact hlast h.1.2
    | cons x' l =>
      rw [intercalate_cons_cons, append_assoc, append_assoc, singleton_append,
        isInfix_colons_cut h.1.2, or_iff_right (not_isPrefix_colon (h.2 x' mem_cons_self) _)]
      exact ih h.2

end Colons

/-- The text behind the groups that are left out begins with a letter. -/
def StartsAfterGap (a : Ipv6) (c : Char) : Prop :=
  ∃ back ∈ a.back, [c] <+: [':'].intercalate (pieces back a.tail)

theorem isInfix_gap_iff {c : Char} (a : Ipv6) : [':', ':', c] <:+: a.text ↔ a.StartsAfterGap c := by
  rw [text, StartsAfterGap]
  cases a.back with
  | none =>
    refine iff_of_false (not_isInfix_colons fun x hx => mem_pieces hx) ?_
    rintro ⟨_, ⟨⟩, -⟩
  | some back =>
    have hpieces (x : List Char) (hx : x ∈ pieces back a.tail) : x ≠ [] ∧ ':' ∉ x := mem_pieces hx
    have hcut := isInfix_colons_cut (c := c) (y := [':'].intercalate (pieces back a.tail))
      (not_mem_nil (a := ':'))
    have hnone : ¬ [':', c] <+: [':'].intercalate (pieces back a.tail) := by
      cases hback : pieces back a.tail with
      | nil => exact fun hpre => absurd (prefix_nil.1 hpre) (cons_ne_nil _ _)
      | cons x l =>
        rw [← append_nil (List.intercalate _ _)]
        exact not_isPrefix_colon (hpieces x (hback ▸ mem_cons_self)) []
    rw [isInfix_colons_iff (fun x hx => mem_pieces hx), or_iff_left]
    · simp only [Option.mem_some_iff, exists_eq_left']
    · intro hinfix
      rcases hcut.1 hinfix with hpre | hinfix
      · exact hnone hpre
      · exact not_isInfix_colons hpieces hinfix

end Ipv6

end RavBot.Lib
