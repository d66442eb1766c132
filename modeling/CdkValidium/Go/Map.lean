import Mathlib

/-!
# Go maps as association lists

A Go `map[K]V` is modelled by an `AList` with non-dependent values: `m[k]` is
`lookup`, `m[k] = v` is `insert` and `delete(m, k)` is `erase`.  Go ranges
over a map in an unspecified order; the model ranges over the entries in the
list's order, which is one of the orders Go may choose.

* `Go.mapValues`: the values a `range` meets.
* `Go.rangeDelete`: a `range` that deletes (under a key computed from the
  value) the values passing a test, and collects them.  An entry deleted
  before the loop reaches it is not visited, as the Go specification says.
-/

namespace Go

variable {κ ν : Type} [DecidableEq κ]

/-- The values of a map, in the order a `range` meets them. -/
def mapValues (m : AList (fun _ : κ => ν)) : List ν := m.entries.map Sigma.snd

/-- `for _, v := range m { if p(v) { vs = append(vs, v); delete(m, key(v)) } }`:
the values taken out, in the order met, and the map left. -/
def rangeDelete (key : ν → κ) (p : ν → Bool) (m : AList (fun _ : κ => ν)) :
    List ν × AList (fun _ : κ => ν) :=
  m.entries.foldl (fun acc e => if e.1 ∈ acc.2 ∧ p e.2 then (acc.1 ++ [e.2], acc.2.erase (key e.2))
    else acc) ([], m)

theorem mem_mapValues {m : AList (fun _ : κ => ν)} {v : ν} :
    v ∈ mapValues m ↔ ∃ k, m.lookup k = some v := by
  simp only [mapValues, List.mem_map]
  constructor
  · rintro ⟨⟨k, v⟩, he, rfl⟩
    exact ⟨k, AList.mem_lookup_iff.mpr he⟩
  · rintro ⟨k, hk⟩
    exact ⟨⟨k, v⟩, AList.mem_lookup_iff.mp hk, rfl⟩

omit [DecidableEq κ] in
@[simp] theorem mapValues_empty : mapValues (∅ : AList (fun _ : κ => ν)) = [] := rfl

theorem mem_mapValues_of_lookup {m : AList (fun _ : κ => ν)} {k : κ} {v : ν}
    (h : m.lookup k = some v) : v ∈ mapValues m :=
  mem_mapValues.mpr ⟨k, h⟩

theorem mem_mapValues_insert {m : AList (fun _ : κ => ν)} {k : κ} {v w : ν}
    (h : w ∈ mapValues (m.insert k v)) : w = v ∨ w ∈ mapValues m := by
  obtain ⟨k', hk'⟩ := mem_mapValues.mp h
  by_cases hk : k' = k
  · subst hk
    rw [AList.lookup_insert, Option.some.injEq] at hk'
    exact Or.inl hk'.symm
  · rw [AList.lookup_insert_ne hk] at hk'
    exact Or.inr (mem_mapValues_of_lookup hk')

theorem mem_mapValues_erase {m : AList (fun _ : κ => ν)} {k : κ} {w : ν}
    (h : w ∈ mapValues (m.erase k)) : w ∈ mapValues m := by
  obtain ⟨k', hk'⟩ := mem_mapValues.mp h
  by_cases hk : k' = k
  · subst hk
    rw [AList.lookup_erase] at hk'
    exact absurd hk' (by simp)
  · rw [AList.lookup_erase_ne hk] at hk'
    exact mem_mapValues_of_lookup hk'

theorem mem_mapValues_foldl_erase {m : AList (fun _ : κ => ν)} (key : ν → κ) {w : ν} :
    ∀ (vs : List ν), w ∈ mapValues (vs.foldl (fun m v => m.erase (key v)) m) → w ∈ mapValues m := by
  intro vs
  induction vs generalizing m with
  | nil => exact id
  | cons v vs ih => exact fun h => mem_mapValues_erase (ih h)

theorem mem_mapValues_rangeDelete {key : ν → κ} {p : ν → Bool} {m : AList (fun _ : κ => ν)} {w : ν}
    (h : w ∈ mapValues (rangeDelete key p m).2) : w ∈ mapValues m := by
  -- the loop only erases: carry "the map is part of `m`" along the fold
  have step : ∀ (es : List (Sigma fun _ : κ => ν)) (acc : List ν × AList (fun _ : κ => ν)),
      (∀ w, w ∈ mapValues acc.2 → w ∈ mapValues m) →
      ∀ w, w ∈ mapValues (es.foldl (fun acc e => if e.1 ∈ acc.2 ∧ p e.2 then
        (acc.1 ++ [e.2], acc.2.erase (key e.2)) else acc) acc).2 → w ∈ mapValues m := by
    intro es
    induction es with
    | nil => exact fun acc hacc => hacc
    | cons e es ih =>
      intro acc hacc
      rw [List.foldl_cons]
      apply ih
      split
      · exact fun w hw => hacc w (mem_mapValues_erase hw)
      · exact hacc
  exact step m.entries ([], m) (fun _ => id) w h

end Go
