import Mathlib.Data.Finset.Card

/-!
# Tables that give up what was used least recently

A table has places for `capacity` members and knows when each was last used.  Using a key makes it a member;
when there is no place, the table gives up a member that is not kept and that was used least recently among
these (`Touch`).

* a table never outgrows its places (`Touch.card_le`);
* the key that was used is a member afterwards, unless every place belongs to a kept one (`Touch.mem_iff`);
* only the order of the times matters (`Touch.congr`).
-/

namespace Recency

variable {κ : Type*} [DecidableEq κ]

/-- The members of a table, and when each was last used. -/
structure Cache (κ : Type*) where
  members : Finset κ
  lastUse : κ → ℕ

/-- `k` has been used at time `t`, and the table has these members now. -/
structure Cache.Used (c : Cache κ) (members : Finset κ) (k : κ) (t : ℕ) (c' : Cache κ) : Prop where
  members : c'.members = members
  now : c'.lastUse k = t
  others : ∀ m ∈ c'.members, m ≠ k → c'.lastUse m = c.lastUse m

/-- A member that the table may give up: it is not kept, and no other one of these was used before it. -/
structure Cache.Stale (c : Cache κ) (kept : κ → Prop) (m : κ) : Prop where
  mem : m ∈ c.members
  free : ¬ kept m
  first : ∀ m' ∈ c.members, ¬ kept m' → c.lastUse m ≤ c.lastUse m'

/-- The use of a key. -/
inductive Touch (capacity : ℕ) (kept : κ → Prop) (k : κ) (t : ℕ) (c c' : Cache κ) : Prop
  | hit (hk : k ∈ c.members) (h : c.Used c.members k t c')
  | room (hk : k ∉ c.members) (hroom : c.members.card < capacity) (h : c.Used (insert k c.members) k t c')
  | evict {m : κ} (hk : k ∉ c.members) (hfull : capacity ≤ c.members.card) (hm : c.Stale kept m)
      (h : c.Used (insert k (c.members.erase m)) k t c')
  | full (hk : k ∉ c.members) (hfull : capacity ≤ c.members.card) (hkept : ∀ m ∈ c.members, kept m)
      (hmembers : c'.members = c.members) (h : ∀ m ∈ c'.members, c'.lastUse m = c.lastUse m)

namespace Touch

variable {capacity : ℕ} {kept : κ → Prop} {k : κ} {t : ℕ} {c c' : Cache κ}

/-- A table never outgrows its places: a new member comes only where there is a place or one is
given up. -/
theorem card_le (h : Touch capacity kept k t c c') (hc : c.members.card ≤ capacity) :
    c'.members.card ≤ capacity := by
  cases h with
  | hit hk h =>
    rw [h.members]
    exact hc
  | room hk hroom h =>
    rw [h.members]
    exact (Finset.card_insert_le _ _).trans hroom
  | @evict m hk hfull hm h =>
    have hlt : (c.members.erase m).card < c.members.card := Finset.card_erase_lt_of_mem hm.mem
    rw [h.members]
    exact (Finset.card_insert_le _ _).trans (hlt.trans_le hc)
  | full hk hfull hkept hmembers =>
    rw [hmembers]
    exact hc

/-- The key that was used has no place only if all places belong to kept members. -/
theorem mem_iff (h : Touch capacity kept k t c c') :
    k ∈ c'.members ↔ k ∈ c.members ∨ c.members.card < capacity ∨ ∃ m ∈ c.members, ¬ kept m := by
  cases h with
  | hit hk h => exact iff_of_true (h.members ▸ hk) (.inl hk)
  | room hk hroom h => exact iff_of_true (h.members ▸ Finset.mem_insert_self _ _) (.inr (.inl hroom))
  | evict hk hfull hm h =>
    exact iff_of_true (h.members ▸ Finset.mem_insert_self _ _) (.inr (.inr ⟨_, hm.mem, hm.free⟩))
  | full hk hfull hkept hmembers =>
    refine iff_of_false (hmembers ▸ hk) ?_
    rintro (hmem | hroom | ⟨m, hm, hfree⟩)
    · exact hk hmem
    · exact absurd hroom hfull.not_gt
    · exact hfree (hkept m hm)

/-- Nothing else comes into the table. -/
theorem subset (h : Touch capacity kept k t c c') : c'.members ⊆ insert k c.members := by
  cases h with
  | hit hk h => exact h.members ▸ Finset.subset_insert _ _
  | room hk hroom h => exact h.members ▸ Finset.Subset.refl _
  | evict hk hfull hm h => exact h.members ▸ Finset.insert_subset_insert _ (Finset.erase_subset _ _)
  | full hk hfull hkept hmembers => exact hmembers ▸ Finset.subset_insert _ _

/-- The same table under other times for its uses, which come in the same order. -/
theorem congr {d d' : Cache κ} {kept' : κ → Prop} {t' : ℕ} (h : Touch capacity kept k t c c')
    (hmembers : d.members = c.members) (hmembers' : d'.members = c'.members)
    (hkept : ∀ m ∈ c.members, kept m ↔ kept' m)
    (horder : ∀ m ∈ c.members, ∀ m' ∈ c.members, c.lastUse m ≤ c.lastUse m' → d.lastUse m ≤ d.lastUse m')
    (hnow : k ∈ d'.members → d'.lastUse k = t')
    (hothers : ∀ m ∈ d'.members, m ≠ k → d'.lastUse m = d.lastUse m) :
    Touch capacity kept' k t' d d' := by
  have hused {members : Finset κ} (hu : c.Used members k t c') (hk : k ∈ members) : d.Used members k t' d' :=
    ⟨hmembers'.trans hu.members, hnow (hmembers'.trans hu.members ▸ hk), hothers⟩
  cases h with
  | hit hk hu =>
    refine .hit (hmembers ▸ hk) ?_
    rw [hmembers]
    exact hused hu hk
  | room hk hroom hu =>
    refine .room (hmembers ▸ hk) (hmembers ▸ hroom) ?_
    rw [hmembers]
    exact hused hu (Finset.mem_insert_self _ _)
  | @evict m hk hfull hm hu =>
    refine .evict (m := m) (hmembers ▸ hk) (hmembers ▸ hfull) ⟨hmembers ▸ hm.mem, ?_, ?_⟩ ?_
    · exact fun hm' => hm.free ((hkept m hm.mem).mpr hm')
    · intro m' hm' hfree
      rw [hmembers] at hm'
      exact horder m hm.mem m' hm' (hm.first m' hm' fun hk' => hfree ((hkept m' hm').mp hk'))
    · rw [hmembers]
      exact hused hu (Finset.mem_insert_self _ _)
  | full hk hfull hall hsame h =>
    refine .full (hmembers ▸ hk) (hmembers ▸ hfull) ?_ (hmembers'.trans (hsame.trans hmembers.symm)) ?_
    · rw [hmembers]
      exact fun m hm => (hkept m hm).mp (hall m hm)
    · intro m hm
      refine hothers m hm ?_
      rintro rfl
      exact hk (hsame ▸ hmembers' ▸ hm)

end Touch

end Recency
