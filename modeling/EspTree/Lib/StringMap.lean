import EspTree.Lib.Bytes
import Mathlib.Data.List.Basic

/-!
# Maps over texts

The library's tree map over byte strings, in the order of the bytes, with the rules for the entry under a key
stated by equality of keys.

The source keeps its tables in `std::map<std::string, …>`, so that loops over them go by the order
of the bytes and not by the order of insertion.  A comparison of byte strings by their lexicographic
order is lawful, which is all that the library needs; from there on the rules here speak of equal
and different keys only, and no proof that uses them has to look at the order again.
-/

/-- A map from byte strings that is gone through in the order of its keys. -/
abbrev StringMap (ν : Type*) := Std.TreeMap Wire.Bytes ν

open Wire

namespace StringMap

variable {ν μ : Type*} {m : StringMap ν} {k k' : Bytes} {x y : ν}

/-- A key that was inserted has the new value, and the others are as before. -/
theorem getElem?_insert : (m.insert k x)[k']? = if k = k' then some x else m[k']? := by
  rw [Std.TreeMap.getElem?_insert]
  exact if_congr Std.LawfulEqCmp.compare_eq_iff_eq rfl rfl

@[simp] theorem getElem?_insert_self : (m.insert k x)[k]? = some x :=
  getElem?_insert.trans (if_pos rfl)

theorem getElem?_insert_of_ne (h : k ≠ k') : (m.insert k x)[k']? = m[k']? :=
  getElem?_insert.trans (if_neg h)

/-- A key that was erased is not there, and the others are as before. -/
theorem getElem?_erase : (m.erase k)[k']? = if k = k' then none else m[k']? := by
  rw [Std.TreeMap.getElem?_erase]
  exact if_congr Std.LawfulEqCmp.compare_eq_iff_eq rfl rfl

/-- The same, for an entry that is known to be there. -/
theorem insert_eq_some_iff :
    (m.insert k x)[k']? = some y ↔ k = k' ∧ x = y ∨ k ≠ k' ∧ m[k']? = some y := by
  rw [getElem?_insert]
  split_ifs with h
  · exact ⟨fun heq => .inl ⟨h, Option.some.inj heq⟩,
      fun hor => hor.elim (fun hx => congrArg some hx.2) fun hne => absurd h hne.1⟩
  · exact ⟨fun heq => .inr ⟨h, heq⟩, fun hor => hor.elim (fun hx => absurd hx.1 h) And.right⟩

theorem erase_eq_some_iff : (m.erase k)[k']? = some y ↔ k ≠ k' ∧ m[k']? = some y := by
  rw [getElem?_erase]
  split_ifs with h
  · exact ⟨fun heq => (by cases heq), fun hne => absurd h hne.1⟩
  · exact ⟨fun heq => ⟨h, heq⟩, And.right⟩

theorem filter_eq_some_iff {p : Bytes → ν → Bool} :
    (m.filter p)[k]? = some x ↔ m[k]? = some x ∧ p k x = true := by
  rw [← Std.TreeMap.mem_toList_iff_getElem?_eq_some, Std.TreeMap.toList_filter, List.mem_filter,
    Std.TreeMap.mem_toList_iff_getElem?_eq_some]

theorem map_eq_some_iff {f : Bytes → ν → μ} {z : μ} :
    (Std.TreeMap.map f m)[k]? = some z ↔ ∃ x, m[k]? = some x ∧ f k x = z := by
  rw [Std.TreeMap.getElem?_map, Option.map_eq_some_iff]

/-- A value is changed under its key only, and no key is added. -/
theorem modify_eq_some_iff {f : ν → ν} :
    (m.modify k f)[k']? = some y ↔ ∃ x, m[k']? = some x ∧ (if k = k' then f x else x) = y := by
  rw [Std.TreeMap.getElem?_modify]
  by_cases h : k = k'
  · rw [if_pos (Std.LawfulEqCmp.compare_eq_iff_eq.mpr h), Option.map_eq_some_iff, h]
    simp only [if_true]
  · rw [if_neg fun heq => h (Std.LawfulEqCmp.compare_eq_iff_eq.mp heq)]
    simp only [if_neg h, exists_eq_right]

@[simp] theorem getElem?_empty : (∅ : StringMap ν)[k]? = none := Std.TreeMap.getElem?_emptyc

/-- The list of a map has its lookups. -/
theorem mem_toList {p : Bytes × ν} : p ∈ m.toList ↔ m[p.1]? = some p.2 :=
  Std.TreeMap.mem_toList_iff_getElem?_eq_some

end StringMap
