import Mathlib.Data.List.Nodup
import Mathlib.Data.List.Perm.Basic

/-!
# Exact indices

Things with distinct ids are kept in several places, and a map says for every id where to
find it.  `ExactIndex map ids` says that the map is right: it sends an id to a place exactly
when the id is kept there.  There are two ways to change the places that keep an index
exact: put a new id in a place and in the map, or take ids of one place out of both.
-/

namespace RavBot.Lib

universe u v

variable {ι : Type u} {κ : Type v}

/-- `map` sends an id to a place exactly when the id is kept there, and no place keeps an id
twice. -/
structure ExactIndex (map : ι → Option κ) (ids : κ → List ι) : Prop where
  map : ∀ id place, map id = some place ↔ id ∈ ids place
  nodup : ∀ place, (ids place).Nodup

namespace ExactIndex

variable {map map' : ι → Option κ} {ids ids' : κ → List ι}

theorem unique (h : ExactIndex map ids) {id : ι} {place place' : κ} (hp : id ∈ ids place)
    (hp' : id ∈ ids place') : place = place' := by
  have heq := (h.map id place).2 hp
  rw [(h.map id place').2 hp'] at heq
  exact (Option.some.inj heq).symm

theorem add [DecidableEq ι] [DecidableEq κ] (h : ExactIndex map ids) {new : ι} (place : κ)
    (hnew : ∀ p, new ∉ ids p) :
    ExactIndex (fun id => if id = new then some place else map id)
      (fun p => if p = place then ids place ++ [new] else ids p) where
  map id p := by
    by_cases hid : id = new
    · subst hid
      by_cases hp : p = place
      · simp [hp]
      · simp [hp, hnew, Ne.symm hp]
    · by_cases hp : p = place
      · subst hp
        simp [hid, h.map]
      · simp [hid, hp, h.map]
  nodup p := by
    by_cases hp : p = place
    · rw [if_pos hp]
      exact List.nodup_append.2 ⟨h.nodup place, List.nodup_singleton new, fun a ha b hb => by
        rintro rfl
        exact hnew place (List.mem_singleton.1 hb ▸ ha)⟩
    · rw [if_neg hp]
      exact h.nodup p

theorem forget [DecidableEq ι] (h : ExactIndex map ids) (place : κ) (gone : List ι)
    (hplace : (ids place).Perm (ids' place ++ gone)) (hsame : ∀ p ≠ place, ids' p = ids p)
    (hmap : ∀ id, map' id = if id ∈ gone then none else map id) : ExactIndex map' ids' := by
  have hnodup : (ids' place ++ gone).Nodup := hplace.nodup (h.nodup place)
  have hdisjoint := (List.nodup_append.1 hnodup).2.2
  constructor
  · intro id p
    rw [hmap]
    by_cases hgone : id ∈ gone
    · rw [if_pos hgone]
      refine ⟨fun heq => (by cases heq), fun hid => ?_⟩
      have hin : id ∈ ids place := hplace.symm.subset (List.mem_append_right _ hgone)
      by_cases hp : p = place
      · subst hp
        exact (hdisjoint id hid id hgone rfl).elim
      · exact (hp (h.unique (hsame p hp ▸ hid) hin)).elim
    · rw [if_neg hgone, h.map]
      by_cases hp : p = place
      · subst hp
        rw [hplace.mem_iff, List.mem_append]
        exact or_iff_left hgone
      · rw [hsame p hp]
  · intro p
    by_cases hp : p = place
    · subst hp
      exact (List.nodup_append.1 hnodup).1
    · rw [hsame p hp]
      exact h.nodup p

end ExactIndex

end RavBot.Lib
