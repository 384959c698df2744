import Mathlib.Data.List.Nodup

/-!
# Dictionaries that keep the order of insertion

A dictionary has one entry for a key.  Setting a key that is there replaces its value in place, and a new key
goes to the end.

* `mem_entries` and `mem_values` say which entries there are, by `get?`;
* `get?_set`, `get?_pop`, `get?_filter` and `get?_map` say what a lookup finds after a change, and
  `view_foldl` what it finds after a loop of them.

The order is part of the data, because a loop over a dictionary goes by it, and what such a loop
makes may depend on the order.  `view_foldl` is for loops in which it does not: each turn sets the
entry of one key, and the result at a key is that of its own turn.
-/

structure Dict (κ ν : Type*) where
  entries : List (κ × ν)
  nodup : (entries.map Prod.fst).Nodup

namespace Dict

variable {κ ν μ : Type*}

def empty : Dict κ ν := ⟨[], List.nodup_nil⟩

instance : EmptyCollection (Dict κ ν) := ⟨empty⟩

instance [DecidableEq κ] [DecidableEq ν] : DecidableEq (Dict κ ν) := fun d d' =>
  decidable_of_iff (d.entries = d'.entries) ⟨fun h => by cases d; cases d'; cases h; rfl, fun h => h ▸ rfl⟩

def keys (d : Dict κ ν) : List κ := d.entries.map Prod.fst

def values (d : Dict κ ν) : List ν := d.entries.map Prod.snd

/-- The entries that `p` keeps. -/
def filter (d : Dict κ ν) (p : κ → ν → Bool) : Dict κ ν where
  entries := d.entries.filter fun entry => p entry.1 entry.2
  nodup := d.nodup.sublist (List.filter_sublist.map _)

/-- The entries with other values. -/
def map (d : Dict κ ν) (f : κ → ν → μ) : Dict κ μ where
  entries := d.entries.map fun entry => (entry.1, f entry.1 entry.2)
  nodup := by
    rw [List.map_map]
    exact d.nodup

variable [DecidableEq κ]

def get? (d : Dict κ ν) (k : κ) : Option ν := (d.entries.find? (·.1 = k)).map Prod.snd

/-- The dictionary without these keys. -/
def popAll (d : Dict κ ν) (ks : List κ) : Dict κ ν := d.filter fun k _ => k ∉ ks

def pop (d : Dict κ ν) (k : κ) : Dict κ ν := d.popAll [k]

/-- `d[k] = v`. -/
def set (d : Dict κ ν) (k : κ) (v : ν) : Dict κ ν :=
  if h : k ∈ d.keys then d.map fun k' v' => if k' = k then v else v'
  else
    { entries := d.entries ++ [(k, v)]
      nodup := by
        rw [List.map_append]
        exact d.nodup.append (List.nodup_singleton k) (List.disjoint_singleton.mpr h) }

section

variable {d : Dict κ ν} {k k' : κ} {v v' : ν}

/-- A key is looked up to the value of its one entry. -/
theorem get?_eq_some : d.get? k = some v ↔ (k, v) ∈ d.entries := by
  rw [get?, Option.map_eq_some_iff]
  constructor
  · rintro ⟨entry, hfind, rfl⟩
    have hkey : entry.1 = k := of_decide_eq_true (List.find?_some hfind :)
    exact hkey ▸ List.mem_of_find?_eq_some hfind
  · intro hmem
    obtain ⟨entry, hfind⟩ := Option.isSome_iff_exists.mp
      (List.find?_isSome.mpr ⟨(k, v), hmem, decide_eq_true rfl⟩ : (d.entries.find? (·.1 = k)).isSome)
    have hkey : entry.1 = k := of_decide_eq_true (List.find?_some hfind :)
    have hentry : entry = (k, v) :=
      List.inj_on_of_nodup_map d.nodup (List.mem_of_find?_eq_some hfind) hmem hkey
    exact ⟨entry, hfind, congrArg Prod.snd hentry⟩

/-- The entries under one key. -/
theorem filter_entries : d.entries.filter (·.1 = k) = ((d.get? k).map (k, ·)).toList := by
  have hlist : ∀ l : List (κ × ν), (l.map Prod.fst).Nodup → l.filter (·.1 = k) = (l.find? (·.1 = k)).toList := by
    intro l hl
    induction l with
    | nil => rfl
    | cons entry l ih =>
      obtain ⟨hnew, hl⟩ := List.nodup_cons.mp hl
      by_cases hk : entry.1 = k
      · have hrest : l.filter (·.1 = k) = [] := List.filter_eq_nil_iff.mpr fun entry' hmem heq =>
          hnew (List.mem_map.mpr ⟨entry', hmem, (of_decide_eq_true heq).trans hk.symm⟩)
        simp only [List.filter_cons, List.find?_cons, hk, decide_true, if_true, hrest, Option.toList_some]
      · simp only [List.filter_cons, List.find?_cons, hk, decide_false, Bool.false_eq_true, if_false, ih hl]
  rw [hlist d.entries d.nodup, get?]
  cases hfind : d.entries.find? (·.1 = k) with
  | none => rfl
  | some entry =>
    have hkey : entry.1 = k := of_decide_eq_true (List.find?_some hfind :)
    subst hkey
    rfl

/-- The entries of a dictionary are its lookups. -/
theorem mem_entries {entry : κ × ν} : entry ∈ d.entries ↔ d.get? entry.1 = some entry.2 := get?_eq_some.symm

/-- The values are what some key is looked up to. -/
theorem mem_values : v ∈ d.values ↔ ∃ k, d.get? k = some v := by
  simp only [values, List.mem_map, get?_eq_some, Prod.exists, exists_eq_right]

theorem mem_keys : k ∈ d.keys ↔ (d.get? k).isSome = true := by
  simp only [keys, List.mem_map, Option.isSome_iff_exists, get?_eq_some, Prod.exists, exists_and_right, exists_eq_right]

/-- A filter keeps or drops the entry of a key, and does not uncover another one. -/
theorem get?_filter {p : κ → ν → Bool} : (d.filter p).get? k = (d.get? k).filter (p k) := by
  ext v
  rw [Option.filter_eq_some_iff, get?_eq_some, get?_eq_some, filter, List.mem_filter]

theorem mem_keys_filter {p : κ → ν → Bool} : k ∈ (d.filter p).keys ↔ ∃ v, d.get? k = some v ∧ p k v = true := by
  simp only [mem_keys, Option.isSome_iff_exists, get?_filter, Option.filter_eq_some_iff]

theorem get?_map {f : κ → ν → μ} : (d.map f).get? k = (d.get? k).map (f k) := by
  ext w
  rw [Option.map_eq_some_iff, get?_eq_some, map, List.mem_map]
  constructor
  · rintro ⟨⟨k', v⟩, hmem, heq⟩
    obtain ⟨rfl, rfl⟩ := Prod.mk.inj heq
    exact ⟨v, get?_eq_some.mpr hmem, rfl⟩
  · rintro ⟨v, hsome, rfl⟩
    exact ⟨(k, v), get?_eq_some.mp hsome, rfl⟩

theorem get?_popAll {ks : List κ} : (d.popAll ks).get? k = if k ∈ ks then none else d.get? k := by
  rw [popAll, get?_filter]
  cases d.get? k with
  | none => exact (ite_self none).symm
  | some v =>
    rw [Option.filter_some]
    by_cases hk : k ∈ ks
    · rw [if_pos hk, decide_eq_false (not_not_intro hk), if_neg Bool.false_ne_true]
    · rw [if_neg hk, decide_eq_true hk, if_pos rfl]

/-- A key that was popped is not there, and the others are as before. -/
theorem get?_pop : (d.pop k).get? k' = if k' = k then none else d.get? k' :=
  get?_popAll.trans (if_congr List.mem_singleton rfl rfl)

/-- A key that was set has the new value, wherever its entry stands, and the others are as before.
-/
theorem get?_set : (d.set k v).get? k' = if k' = k then some v else d.get? k' := by
  rw [set]
  split_ifs with hmem hk hk
  · subst hk
    obtain ⟨v', hv'⟩ := Option.isSome_iff_exists.mp (mem_keys.mp hmem)
    rw [get?_map, hv', Option.map_some, if_pos rfl]
  · rw [get?_map]
    cases d.get? k' with
    | none => rfl
    | some v' => rw [Option.map_some, if_neg hk]
  · subst hk
    exact get?_eq_some.mpr (List.mem_append_right _ (List.mem_singleton_self _))
  · ext w
    rw [get?_eq_some, get?_eq_some, List.mem_append, List.mem_singleton]
    exact or_iff_left fun heq => hk (congrArg Prod.fst heq)

/-- A loop that sets one key in each turn leaves the value of the last turn for a key; `view` is what is seen of
the state under a key. -/
theorem view_foldl {σ α : Type*} {f : σ → α → σ} (view : σ → κ → Option μ) (key : α → κ) (val : α → μ)
    (hf : ∀ s a k, view (f s a) k = if k = key a then some (val a) else view s k) (l : List α) (s : σ) (k : κ) :
    view (l.foldl f s) k = ((l.reverse.find? (key · = k)).map val).or (view s k) := by
  induction l generalizing s with
  | nil => rfl
  | cons a l ih =>
    rw [List.foldl_cons, ih, hf, List.reverse_cons, List.find?_append]
    cases l.reverse.find? (key · = k) with
    | some b => rfl
    | none =>
      by_cases hk : k = key a
      · have hfind : [a].find? (key · = k) = some a := List.find?_cons_of_pos (decide_eq_true hk.symm)
        rw [if_pos hk, hfind]
        rfl
      · have hfind : [a].find? (key · = k) = none :=
          List.find?_cons_of_neg (by simpa using Ne.symm hk)
        rw [if_neg hk, hfind]
        rfl

/-- After a loop of settings a key has the value of the last one for it, or else what it had before.
-/
theorem get?_foldl_set {α : Type*} (key : α → κ) (val : α → ν) (l : List α) (d : Dict κ ν) (k : κ) :
    (l.foldl (fun d a => d.set (key a) (val a)) d).get? k =
      ((l.reverse.find? (key · = k)).map val).or (d.get? k) :=
  view_foldl get? key val (fun _ _ _ => get?_set) l d k

end

end Dict
