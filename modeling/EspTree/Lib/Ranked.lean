import Mathlib.Data.List.Sort

/-!
# Lists in the order of a rank

A list without repetitions is determined by its members once their ranks are known
(`Ranked.unique`).  `moveUp` and `moveDown` exchange an element with a neighbour; they are what
taking it out and putting it in one place further does.

The rank need not be the place in the list.  Gaps in the ranks do no harm, since only their order
counts, and this is why a table that keeps a rank for each row can be used as a list although
nothing is renumbered when a row goes.  `moveUp_eq` and `moveDown_eq` are stated for a list that is
split at the element, which is the form in which a proof about such a table has it.
-/

variable {α : Type*}

/-- The ranks of the list increase. -/
def Ranked (rank : α → Nat) (l : List α) : Prop := l.Pairwise fun a b => rank a < rank b

namespace Ranked

variable {rank rank' : α → Nat} {l l' : List α} {a : α}

/-- Ranks that rise tell the elements apart. -/
theorem nodup (h : Ranked rank l) : l.Nodup :=
  List.Pairwise.imp (fun hlt heq => absurd hlt (by simp [heq])) h

/-- Only the ranks of the elements matter. -/
theorem congr (h : Ranked rank l) (heq : ∀ a ∈ l, rank' a = rank a) : Ranked rank' l :=
  List.Pairwise.imp_of_mem (fun ha hb hlt => by rw [heq _ ha, heq _ hb]; exact hlt) h

theorem sublist (h : Ranked rank l) (hsub : l'.Sublist l) : Ranked rank l' := List.Pairwise.sublist hsub h

/-- What has the highest rank goes to the end. -/
theorem append (h : Ranked rank l) (hlt : ∀ b ∈ l, rank b < rank a) : Ranked rank (l ++ [a]) := by
  refine List.pairwise_append.2 ⟨h, List.pairwise_singleton _ _, ?_⟩
  intro b hb c hc
  rw [List.mem_singleton.1 hc]
  exact hlt b hb

/-- An element is known by its rank. -/
theorem eq_of_rank (h : Ranked rank l) {b : α} (ha : a ∈ l) (hb : b ∈ l) (heq : rank a = rank b) :
    a = b := by
  have hmap : (l.map rank).Nodup := List.Pairwise.map rank (fun _ _ hlt => hlt.ne) h
  exact List.inj_on_of_nodup_map hmap ha hb heq

/-- The members and their ranks determine the list. -/
theorem unique (h : Ranked rank l) (h' : l'.Pairwise fun a b => rank a ≤ rank b) (hn : l'.Nodup)
    (hmem : ∀ a, a ∈ l ↔ a ∈ l') : l = l' := by
  have hle : l.Pairwise fun a b => rank a ≤ rank b := List.Pairwise.imp le_of_lt h
  refine List.Perm.eq_of_pairwise ?_ hle h' ((List.perm_ext_iff_of_nodup h.nodup hn).2 hmem)
  exact fun a b ha hb hab hba => h.eq_of_rank ha ((hmem b).2 hb) (le_antisymm hab hba)

/-- A list without repetitions is in the order of its places. -/
theorem idxOf [DecidableEq α] (h : l.Nodup) : Ranked (l.idxOf ·) l := by
  rw [Ranked, List.pairwise_iff_getElem]
  intro i j hi hj hij
  rwa [List.Nodup.idxOf_getElem h, List.Nodup.idxOf_getElem h]

end Ranked

section

variable [DecidableEq α]

/-- The element changes places with the one before it. -/
def moveUp (a : α) : List α → List α
  | b :: c :: l => if c = a then c :: b :: l else b :: moveUp a (c :: l)
  | l => l

/-- The element changes places with the one after it. -/
def moveDown (a : α) : List α → List α
  | b :: c :: l => if b = a then c :: b :: l else b :: moveDown a (c :: l)
  | l => l

/-- The element takes the last place. -/
def moveBack (a : α) (l : List α) : List α := l.erase a ++ [a]

/-- To move an element up is to take it out and to put it in one place further to the front. -/
theorem moveUp_eq {a : α} : ∀ {l : List α} {k : Nat}, a ∈ l → l.idxOf a = k + 1 →
    (l.erase a).take k ++ a :: (l.erase a).drop k = moveUp a l
  | [b], k, ha, hk => by
    rw [List.mem_singleton.1 ha, List.idxOf_cons_self] at hk
    cases hk
  | b :: c :: l, k, ha, hk => by
    have hb : b ≠ a := by
      rintro rfl
      rw [List.idxOf_cons_self] at hk
      cases hk
    have ha' : a ∈ c :: l := (List.mem_cons.1 ha).resolve_left hb.symm
    have hk' : (c :: l).idxOf a = k := by
      rw [List.idxOf_cons_ne _ hb] at hk
      omega
    rw [moveUp, List.erase_cons_tail (by simpa using hb)]
    by_cases hc : c = a
    · subst hc
      rw [List.idxOf_cons_self] at hk'
      simp [← hk']
    · obtain ⟨j, rfl⟩ : ∃ j, k = j + 1 := by
        rw [List.idxOf_cons_ne _ hc] at hk'
        exact ⟨_, hk'.symm⟩
      rw [if_neg hc, ← moveUp_eq ha' hk']
      simp

theorem moveUp_of_not_mem {a : α} : ∀ {l : List α}, a ∉ l → moveUp a l = l
  | [], _ => rfl
  | [_], _ => rfl
  | b :: c :: l, h => by
    have hc : a ∉ c :: l := fun hmem => h (List.mem_cons_of_mem _ hmem)
    have hne : c ≠ a := fun heq => hc (heq ▸ List.mem_cons_self)
    rw [moveUp, if_neg hne, moveUp_of_not_mem hc]

/-- The first element has no neighbour in front of it. -/
theorem moveUp_of_first {a : α} : ∀ {l : List α}, l.Nodup → l.idxOf a = 0 → moveUp a l = l
  | [], _, _ => rfl
  | [_], _, _ => rfl
  | b :: c :: l, hl, hk => by
    have hb : b = a := by
      by_contra hb
      rw [List.idxOf_cons_ne _ hb] at hk
      cases hk
    subst hb
    have hrest := (List.nodup_cons.1 hl).1
    have hc : c ≠ b := fun heq => hrest (heq ▸ List.mem_cons_self)
    rw [moveUp, if_neg hc, moveUp_of_not_mem hrest]

/-- To move an element down is to take it out and to put it in one place further to the back. -/
theorem moveDown_eq {a : α} : ∀ {l : List α}, l.idxOf a + 1 < l.length →
    (l.erase a).take (l.idxOf a + 1) ++ a :: (l.erase a).drop (l.idxOf a + 1) = moveDown a l
  | [_], h => by simp at h
  | b :: c :: l, h => by
    by_cases hb : b = a
    · subst hb
      simp [moveDown]
    · rw [List.idxOf_cons_ne _ hb, List.length_cons] at h
      rw [moveDown, if_neg hb, List.erase_cons_tail (by simpa using hb), List.idxOf_cons_ne _ hb,
        ← moveDown_eq (by omega)]
      simp

theorem moveDown_of_not_mem {a : α} : ∀ {l : List α}, a ∉ l → moveDown a l = l
  | [], _ => rfl
  | [_], _ => rfl
  | b :: c :: l, h => by
    have hne : b ≠ a := fun heq => h (heq ▸ List.mem_cons_self)
    rw [moveDown, if_neg hne, moveDown_of_not_mem fun hmem => h (List.mem_cons_of_mem _ hmem)]

/-- The last element has no neighbour behind it. -/
theorem moveDown_of_last {a : α} : ∀ {l : List α}, l.length ≤ l.idxOf a + 1 → moveDown a l = l
  | [], _ => rfl
  | [_], _ => rfl
  | b :: c :: l, h => by
    have hb : b ≠ a := by
      rintro rfl
      simp at h
    rw [List.idxOf_cons_ne _ hb, List.length_cons] at h
    rw [moveDown, if_neg hb, moveDown_of_last (by omega)]

end
