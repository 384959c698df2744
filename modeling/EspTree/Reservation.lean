import EspTree.Assembly

/-!
# Reserved bytes

Each of the three maps of buffers comes with a counter of the bytes that are reserved for it.
`Ledger` says that the books are in order; `offerFragment_ledger_iff` says which fragments leave them
so.  A fragment that opens a buffer must get its space (`OpensWell`): where it is refused, the empty
buffer stays in the map and its reservation in the counter, and where it takes over the buffer of a
message of another length, the counter keeps the old length.

The bytes of a map are a sum over its entries, and the entries have distinct keys, so that what an
insertion or a removal does to the sum is one of a few cases.  `Ledger` asks that the keys are
distinct, that every buffer is in use, and that the counter, which has 32 bits, is the sum.

`offerFragment_ledger_iff` is the exact condition for one fragment.  The handlers of both ends, which
differ in when they take the flags of a message, have it in common.
-/

namespace EspTree

open Wire

namespace Assemblies

/-- The bytes that the buffers reserve. -/
def bytes (as : Assemblies) : Nat := (as.map (·.2.data.length)).sum

variable {as : Assemblies} {i : UInt8} {a b : FragmentAssembly}

/-- No entry means no buffer under the key. -/
theorem get?_eq_none_iff : as.get? i = none ↔ i ∉ as.map Prod.fst := by
  rw [get?, List.lookup_eq_none_iff, List.mem_map]
  constructor
  · rintro h ⟨p, hp, rfl⟩
    simpa using h p hp
  · intro h p hp
    simpa using fun heq : i = p.1 => h ⟨p, hp, heq.symm⟩

theorem get?_cons_of_ne {p : UInt8 × FragmentAssembly} (h : i ≠ p.1) : get? (p :: as) i = as.get? i := by
  obtain ⟨j, b⟩ := p
  have hne : (i == j) = false := beq_eq_false_iff_ne.mpr h
  rw [get?, List.lookup_cons, hne, get?]

theorem get?_cons {p : UInt8 × FragmentAssembly} (h : get? (p :: as) i = some a) :
    (i = p.1 ∧ p.2 = a) ∨ (i ≠ p.1 ∧ as.get? i = some a) := by
  obtain ⟨j, b⟩ := p
  by_cases hi : i = j
  · subst hi
    exact .inl ⟨rfl, by simpa [get?] using h⟩
  · exact .inr ⟨hi, by rwa [get?_cons_of_ne hi] at h⟩

theorem set_of_none (h : as.get? i = none) (a : FragmentAssembly) : as.set i a = as ++ [(i, a)] := by
  have hnone : as.lookup i = none := h
  rw [set, hnone, if_neg (by simp)]

theorem set_of_some (h : as.get? i = some a) (b : FragmentAssembly) :
    as.set i b = as.map fun p => if p.1 == i then (i, b) else p := by
  have hsome : as.lookup i = some a := h
  rw [set, hsome, if_pos (by simp)]

/-- Setting a buffer adds its key if it is new. -/
theorem keys_set (as : Assemblies) (i : UInt8) (a : FragmentAssembly) :
    (as.set i a).map Prod.fst = if (as.get? i).isSome then as.map Prod.fst else as.map Prod.fst ++ [i] := by
  cases h : as.get? i with
  | none => simp [set_of_none h]
  | some b =>
    rw [set_of_some h, List.map_map, if_pos (by simp)]
    refine List.map_congr_left fun p _ => ?_
    by_cases hp : p.1 = i <;> simp [hp]

theorem get?_set_self (as : Assemblies) (i : UInt8) (a : FragmentAssembly) :
    (as.set i a).get? i = some a := by
  cases h : as.get? i with
  | none =>
    have hnone : as.lookup i = none := h
    rw [set_of_none h, get?, List.lookup_append, hnone]
    simp
  | some b =>
    rw [set_of_some h]
    induction as with
    | nil => cases h
    | cons p as ih =>
      by_cases hp : p.1 = i
      · simp [get?, hp]
      · have hne : i ≠ p.1 := Ne.symm hp
        rw [get?_cons_of_ne hne] at h
        rw [List.map_cons, if_neg (by simpa using hp), get?_cons_of_ne hne]
        exact ih h

theorem set_set (as : Assemblies) (i : UInt8) (a b : FragmentAssembly) :
    (as.set i a).set i b = as.set i b := by
  rw [set_of_some (get?_set_self as i a)]
  cases h : as.get? i with
  | none =>
    have hne : ∀ p ∈ as, p.1 ≠ i := by
      intro p hp heq
      exact get?_eq_none_iff.1 h (List.mem_map.2 ⟨p, hp, heq⟩)
    rw [set_of_none h, set_of_none h, List.map_append]
    congr 1
    · refine (List.map_congr_left fun p hp => ?_).trans (List.map_id _)
      simp [hne p hp]
    · simp
  | some c =>
    rw [set_of_some h, set_of_some h, List.map_map]
    refine List.map_congr_left fun p _ => ?_
    by_cases hp : p.1 = i <;> simp [hp]

theorem bytes_append (as bs : Assemblies) : (as ++ bs).bytes = as.bytes + bs.bytes := by
  simp [bytes]

theorem bytes_cons (p : UInt8 × FragmentAssembly) (as : Assemblies) :
    bytes (p :: as) = p.2.data.length + as.bytes := by
  simp [bytes]

/-- The bytes of a map are those of any two parts of it. -/
theorem bytes_filter (as : Assemblies) (p : UInt8 × FragmentAssembly → Bool) :
    bytes (as.filter p) + bytes (as.filter fun q => !p q) = as.bytes := by
  induction as with
  | nil => rfl
  | cons q as ih =>
    by_cases hq : p q
    · rw [List.filter_cons_of_pos hq, List.filter_cons_of_neg (by simpa using hq), bytes_cons, bytes_cons]
      omega
    · rw [List.filter_cons_of_neg hq, List.filter_cons_of_pos (by simpa using hq), bytes_cons, bytes_cons]
      omega

/-- A map needs no more than its largest buffer for each entry. -/
theorem bytes_le {n : Nat} (h : ∀ p ∈ as, p.2.data.length ≤ n) : as.bytes ≤ as.length * n := by
  induction as with
  | nil => exact Nat.zero_le _
  | cons p as ih =>
    have hp := h p List.mem_cons_self
    have hrest := ih fun q hq => h q (List.mem_cons_of_mem _ hq)
    rw [bytes_cons, List.length_cons, Nat.succ_mul]
    omega

/-- The entries that are not for `i` stay as they are. -/
theorem map_of_notMem (h : i ∉ as.map Prod.fst) (b : FragmentAssembly) :
    (as.map fun p => if p.1 == i then (i, b) else p) = as := by
  refine (List.map_congr_left fun p hp => ?_).trans (List.map_id _)
  have hne : p.1 ≠ i := fun heq => h (List.mem_map.2 ⟨p, hp, heq⟩)
  simp [hne]

/-- A new buffer adds its bytes. -/
theorem bytes_set_of_none (h : as.get? i = none) (b : FragmentAssembly) :
    (as.set i b).bytes = as.bytes + b.data.length := by
  rw [set_of_none h, bytes_append]
  simp [bytes]

/-- A buffer that takes the place of another one adds its bytes and gives the old ones back. -/
theorem bytes_set_of_some (hkeys : (as.map Prod.fst).Nodup) (h : as.get? i = some a)
    (b : FragmentAssembly) : (as.set i b).bytes + a.data.length = as.bytes + b.data.length := by
  rw [set_of_some h]
  induction as with
  | nil => cases h
  | cons p as ih =>
    obtain ⟨hp, hrest⟩ := List.nodup_cons.1 hkeys
    rcases get?_cons h with ⟨rfl, rfl⟩ | ⟨hi, hget⟩
    · rw [List.map_cons, map_of_notMem hp, bytes_cons, bytes_cons, if_pos (by simp)]
      dsimp only
      omega
    · have hmap := ih hrest hget
      rw [List.map_cons, bytes_cons, bytes_cons, if_neg (by simpa using Ne.symm hi)]
      omega

theorem nodup_set (hkeys : (as.map Prod.fst).Nodup) (i : UInt8) (b : FragmentAssembly) :
    ((as.set i b).map Prod.fst).Nodup := by
  rw [keys_set]
  split
  · exact hkeys
  next h =>
    have hnone : as.get? i = none := by simpa using h
    exact List.nodup_append.2 ⟨hkeys, List.nodup_singleton _, fun x hx y hy heq =>
      get?_eq_none_iff.1 hnone (by rw [← List.mem_singleton.1 hy, ← heq]; exact hx)⟩

theorem length_set (as : Assemblies) (i : UInt8) (b : FragmentAssembly) :
    (as.set i b).length = if (as.get? i).isSome then as.length else as.length + 1 := by
  have hlength := congrArg List.length (keys_set as i b)
  rw [List.length_map] at hlength
  rw [hlength]
  split <;> simp

/-- A buffer that is removed gives its bytes back. -/
theorem bytes_remove (hkeys : (as.map Prod.fst).Nodup) (h : as.get? i = some a) :
    (as.remove i).bytes + a.data.length = as.bytes := by
  have hfilter := bytes_filter as fun p => p.1 != i
  have hgone : as.filter (fun p => !(p.1 != i)) = [(i, a)] := by
    induction as with
    | nil => cases h
    | cons p as ih =>
      obtain ⟨hp, hrest⟩ := List.nodup_cons.1 hkeys
      rcases get?_cons h with ⟨rfl, rfl⟩ | ⟨hi, hget⟩
      · rw [List.filter_cons_of_pos (by simp), List.filter_eq_nil_iff.2]
        intro q hq
        have hne : q.1 ≠ p.1 := fun heq => hp (List.mem_map.2 ⟨q, hq, heq⟩)
        simpa using hne
      · rw [List.filter_cons_of_neg (by simpa using Ne.symm hi)]
        exact ih hrest hget (bytes_filter as _)
  rw [hgone] at hfilter
  simpa [remove, bytes] using hfilter

theorem nodup_filter (hkeys : (as.map Prod.fst).Nodup) (p : UInt8 × FragmentAssembly → Bool) :
    ((as.filter p).map Prod.fst).Nodup :=
  hkeys.sublist (List.filter_sublist.map _)

end Assemblies

namespace FragmentAssembly

variable {a d : FragmentAssembly} {lastFlags : Bool} {view : EntityPayload} {base now : UInt32}
  {slot maxAssembly : Nat}

/-- A message with counter `base` takes over the buffer of an unfinished one. -/
def overtaken (a : FragmentAssembly) (base : UInt32) : Bool :=
  a.active && a.messageTxBase != base && decide (a.messageTxBase < base)

/-- The space of a buffer does not change when a fragment is put into it. -/
structure SameSpace (a d : FragmentAssembly) : Prop where
  active : d.active = a.active
  count : d.fragmentCount = a.fragmentCount
  data : d.data.length = a.data.length

theorem SameSpace.refl (a : FragmentAssembly) : SameSpace a a := ⟨rfl, rfl, rfl⟩

variable (lastFlags) in
/-- Storing a fragment leaves the space of the buffer as it was opened. -/
theorem storeFragment_of_open (h : a.openFor view base now slot maxAssembly = some d) :
    SameSpace d (a.storeFragment lastFlags view base now slot maxAssembly).1 := by
  have htake : SameSpace d (if lastFlags then d.takeLastFlags view else d) := by
    split
    · unfold takeLastFlags
      split <;> exact ⟨rfl, rfl, rfl⟩
    · exact .refl d
  unfold storeFragment
  rw [h]
  dsimp only
  generalize (if lastFlags then d.takeLastFlags view else d) = t at htake ⊢
  split
  · exact htake
  · split
    · exact htake
    next hfits =>
      refine ⟨htake.active, htake.count, ?_⟩
      rw [← htake.data]
      exact length_overwrite (Nat.not_lt.1 hfits)

variable (lastFlags view base now slot maxAssembly) in
/-- The fragment opens an empty buffer, or is refused. -/
theorem storeFragment_open (h : a.active = false) :
    (maxAssembly < view.fragmentCount.toNat * slot ∧
      a.storeFragment lastFlags view base now slot maxAssembly = (a, false)) ∨
    (view.fragmentCount.toNat * slot ≤ maxAssembly ∧
      (a.storeFragment lastFlags view base now slot maxAssembly).1.active ∧
      (a.storeFragment lastFlags view base now slot maxAssembly).1.fragmentCount = view.fragmentCount ∧
      (a.storeFragment lastFlags view base now slot maxAssembly).1.data.length =
        view.fragmentCount.toNat * slot) := by
  by_cases hsize : maxAssembly < view.fragmentCount.toNat * slot
  · refine .inl ⟨hsize, ?_⟩
    unfold storeFragment openFor
    rw [if_neg (by simp [h])]
    dsimp only
    rw [if_pos hsize]
  · obtain ⟨d, hd, hactive, hcount, hdata⟩ : ∃ d, a.openFor view base now slot maxAssembly = some d ∧
        d.active ∧ d.fragmentCount = view.fragmentCount ∧
        d.data.length = view.fragmentCount.toNat * slot := by
      unfold openFor
      rw [if_neg (by simp [h])]
      dsimp only
      rw [if_neg hsize]
      exact ⟨_, rfl, rfl, rfl, List.length_replicate⟩
    have hsame := storeFragment_of_open lastFlags hd
    exact .inr ⟨Nat.not_lt.1 hsize, hsame.active.trans hactive, hsame.count.trans hcount,
      hsame.data.trans hdata⟩

/-- A buffer that is open stays as large as it is. -/
theorem storeFragment_active (h : a.active) :
    SameSpace a (a.storeFragment lastFlags view base now slot maxAssembly).1 := by
  cases hd : a.openFor view base now slot maxAssembly with
  | none =>
    unfold storeFragment
    rw [hd]
    exact .refl a
  | some d =>
    have hopen : SameSpace a d := by
      unfold openFor at hd
      rw [if_pos h] at hd
      split at hd
      · cases hd
      · cases hd
        exact ⟨rfl, rfl, rfl⟩
    have hsame := storeFragment_of_open lastFlags hd
    exact ⟨hsame.active.trans hopen.active, hsame.count.trans hopen.count, hsame.data.trans hopen.data⟩

end FragmentAssembly

/-! ## The books -/

/-- Limits that go with each other. -/
structure FragmentLimits.Valid (limits : FragmentLimits) : Prop where
  fragment : limits.maxEntityFragment < 2 ^ 16
  assembly : limits.maxAssemblyBytes < 2 ^ 16
  total : 2 * limits.maxAssemblyBytes ≤ limits.maxTotalFragmentBytes
  word : limits.maxTotalFragmentBytes < 2 ^ 32

theorem FragmentLimits.Valid.default : ({} : FragmentLimits).Valid :=
  ⟨by decide, by decide, by decide, by decide⟩

theorem FragmentLimits.Valid.ofMtu {n : Nat} (h : n = v1MaxPayload ∨ n = v2MaxPayload) :
    (FragmentLimits.ofMtu n).Valid := by
  rcases h with rfl | rfl <;> exact ⟨by decide, by decide, by decide, by decide⟩

/-- The books are in order: the counter is the sum, and every buffer is in use. -/
structure Ledger (pending : Assemblies) (reserved : UInt32) : Prop where
  total : reserved.toNat = pending.bytes
  active : ∀ p ∈ pending, p.2.active = true
  keys : (pending.map Prod.fst).Nodup
  length : pending.length ≤ maxPendingFragmentAssemblies
  small : ∀ p ∈ pending, p.2.data.length < 2 ^ 16

/-- The bytes that a message reserves. -/
def EntityPayload.reserves (view : EntityPayload) (limits : FragmentLimits) : Nat :=
  view.fragmentCount.toNat * limits.maxEntityFragment

/-- A fragment that opens a buffer gets its space, and where it takes over the buffer of an unfinished
message it reserves as much as that one.  A new entry is counted twice against the cap. -/
def OpensWell (limits : FragmentLimits) (pending : Assemblies) (reserved : UInt32)
    (view : EntityPayload) (base : UInt32) : Prop :=
  match pending.get? view.entityIndex with
  | none => pending.length < maxPendingFragmentAssemblies →
      view.reserves limits ≤ limits.maxAssemblyBytes ∧
        reserved.toNat + 2 * view.reserves limits ≤ limits.maxTotalFragmentBytes
  | some a => a.overtaken base = true →
      view.reserves limits = a.data.length ∧ view.reserves limits ≤ limits.maxAssemblyBytes ∧
        reserved.toNat + view.reserves limits ≤ limits.maxTotalFragmentBytes

instance OpensWell.decidable (limits : FragmentLimits) (pending : Assemblies) (reserved : UInt32)
    (view : EntityPayload) (base : UInt32) : Decidable (OpensWell limits pending reserved view base) :=
  match h : pending.get? view.entityIndex with
  | none => decidable_of_iff (pending.length < maxPendingFragmentAssemblies →
      view.reserves limits ≤ limits.maxAssemblyBytes ∧
        reserved.toNat + 2 * view.reserves limits ≤ limits.maxTotalFragmentBytes) (by rw [OpensWell, h])
  | some a => decidable_of_iff (a.overtaken base = true →
      view.reserves limits = a.data.length ∧ view.reserves limits ≤ limits.maxAssemblyBytes ∧
        reserved.toNat + view.reserves limits ≤ limits.maxTotalFragmentBytes) (by rw [OpensWell, h])

/-- What a fragment asks for is far below the range of the counter, so that no sum overflows. -/
theorem EntityPayload.reserves_lt (view : EntityPayload) {limits : FragmentLimits}
    (h : limits.Valid) : view.reserves limits < 2 ^ 24 :=
  calc view.reserves limits ≤ view.fragmentCount.toNat * 2 ^ 16 :=
        Nat.mul_le_mul_left _ (Nat.le_of_lt h.fragment)
    _ < 2 ^ 8 * 2 ^ 16 := Nat.mul_lt_mul_of_pos_right view.fragmentCount.toNat_lt (by decide)
    _ = 2 ^ 24 := by decide

theorem toNat_ofNat_of_lt {n : Nat} (h : n < 2 ^ 24) : (UInt32.ofNat n).toNat = n :=
  UInt32.toNat_ofNat_of_lt' (Nat.lt_trans h (by decide))

namespace Ledger

variable {pending : Assemblies} {reserved : UInt32} {i : UInt8} {a b : FragmentAssembly}

theorem empty : Ledger [] 0 := ⟨rfl, by simp, List.nodup_nil, by simp, by simp⟩

/-- What is reserved is below the range of the counter. -/
theorem reserved_lt (h : Ledger pending reserved) : reserved.toNat < 2 ^ 20 := by
  have hbytes := Assemblies.bytes_le fun p hp => Nat.le_of_lt_succ (h.small p hp)
  have hmul := Nat.mul_le_mul_right (2 ^ 16 - 1) h.length
  have hlength : maxPendingFragmentAssemblies * (2 ^ 16 - 1) < 2 ^ 20 := by decide
  rw [h.total]
  exact Nat.lt_of_le_of_lt (Nat.le_trans hbytes hmul) hlength

theorem get?_of_mem (h : Ledger pending reserved) (hmem : (i, a) ∈ pending) :
    pending.get? i = some a := by
  have hkeys := h.keys
  clear h
  induction pending with
  | nil => cases hmem
  | cons p pending ih =>
    obtain ⟨hp, hrest⟩ := List.nodup_cons.1 hkeys
    rcases List.mem_cons.1 hmem with rfl | hmem
    · simp [Assemblies.get?]
    · have hne : i ≠ p.1 := by
        rintro rfl
        exact hp (List.mem_map.2 ⟨_, hmem, rfl⟩)
      rw [Assemblies.get?_cons_of_ne hne]
      exact ih hmem hrest

/-- A buffer for an entity that has none. -/
theorem add (h : Ledger pending reserved) (hget : pending.get? i = none)
    (hlength : pending.length < maxPendingFragmentAssemblies) (hactive : b.active = true)
    (hsmall : b.data.length < 2 ^ 16) :
    Ledger (pending.set i b) (reserved + UInt32.ofNat b.data.length) := by
  have hlt := h.reserved_lt
  refine ⟨?_, fun p hp => ?_, Assemblies.nodup_set h.keys i b, ?_, fun p hp => ?_⟩
  · rw [Assemblies.bytes_set_of_none hget, ← h.total, UInt32.toNat_add,
      toNat_ofNat_of_lt (by omega), Nat.mod_eq_of_lt (by omega)]
  · rcases Assemblies.mem_set hp with rfl | hp
    · exact hactive
    · exact h.active p hp
  · rw [Assemblies.length_set, hget]
    exact hlength
  · rcases Assemblies.mem_set hp with rfl | hp
    · exact hsmall
    · exact h.small p hp

/-- Another buffer of the same size. -/
theorem replace (h : Ledger pending reserved) (hget : pending.get? i = some a)
    (hactive : b.active = true) (hdata : b.data.length = a.data.length) :
    Ledger (pending.set i b) reserved := by
  have hmem := Assemblies.mem_of_get? hget
  refine ⟨?_, fun p hp => ?_, Assemblies.nodup_set h.keys i b, ?_, fun p hp => ?_⟩
  · have hbytes := Assemblies.bytes_set_of_some h.keys hget b
    rw [h.total]
    omega
  · rcases Assemblies.mem_set hp with rfl | hp
    · exact hactive
    · exact h.active p hp
  · rw [Assemblies.length_set, hget]
    exact h.length
  · rcases Assemblies.mem_set hp with rfl | hp
    · exact hdata ▸ h.small _ hmem
    · exact h.small p hp

/-- A message is complete. -/
theorem remove (h : Ledger pending reserved) (hget : pending.get? i = some a) :
    Ledger (pending.remove i) (reserved - UInt32.ofNat a.data.length) := by
  have hbytes := Assemblies.bytes_remove h.keys hget
  have hsub : ∀ p ∈ pending.remove i, p ∈ pending := fun p hp => List.mem_of_mem_filter hp
  have hsmall : a.data.length < 2 ^ 16 := h.small _ (Assemblies.mem_of_get? hget)
  have htotal := h.total
  refine ⟨?_, fun p hp => h.active p (hsub p hp), Assemblies.nodup_filter h.keys _,
    Nat.le_trans (List.length_filter_le _ _) h.length, fun p hp => h.small p (hsub p hp)⟩
  have hofNat : (UInt32.ofNat a.data.length).toNat = a.data.length :=
    toNat_ofNat_of_lt (by omega)
  rw [UInt32.toNat_sub_of_le _ _ (by rw [UInt32.le_iff_toNat_le, hofNat]; omega), hofNat]
  omega

/-- Buffers that have expired are dropped. -/
theorem drop (h : Ledger pending reserved) (p : UInt8 × FragmentAssembly → Bool) :
    Ledger (pending.filter fun q => !p q)
      (reserved - UInt32.ofNat (Assemblies.bytes (pending.filter p))) := by
  have hbytes := Assemblies.bytes_filter pending p
  have hsub : ∀ q ∈ pending.filter (fun q => !p q), q ∈ pending := fun q hq => List.mem_of_mem_filter hq
  have htotal := h.total
  have hlt := h.reserved_lt
  refine ⟨?_, fun q hq => h.active q (hsub q hq), Assemblies.nodup_filter h.keys _,
    Nat.le_trans (List.length_filter_le _ _) h.length, fun q hq => h.small q (hsub q hq)⟩
  have hofNat : (UInt32.ofNat (Assemblies.bytes (pending.filter p))).toNat =
      Assemblies.bytes (pending.filter p) := toNat_ofNat_of_lt (by omega)
  rw [UInt32.toNat_sub_of_le _ _ (by rw [UInt32.le_iff_toNat_le, hofNat]; omega), hofNat]
  omega

end Ledger

/-! ## Offering a fragment -/

section

variable {lastFlags : Bool} {limits : FragmentLimits} {pending : Assemblies} {reserved : UInt32}
  {view : EntityPayload} {base now : UInt32}

/-- Without a free entry the fragment is dropped, and nothing changes. -/
theorem offerFragment_full (hget : pending.get? view.entityIndex = none)
    (hfull : maxPendingFragmentAssemblies ≤ pending.length) :
    offerFragment lastFlags limits pending reserved view base now = ⟨pending, reserved, none⟩ := by
  unfold offerFragment
  dsimp only
  rw [hget, if_pos ⟨rfl, hfull⟩]

/-- The buffer that is in the map after a fragment was offered to `a`. -/
def leftBy (lastFlags : Bool) (limits : FragmentLimits) (total : UInt32) (view : EntityPayload)
    (base now : UInt32) (a : FragmentAssembly) : FragmentAssembly :=
  if ¬ a.active ∧ limits.maxTotalFragmentBytes <
      (total + UInt32.ofNat (view.fragmentCount.toNat * limits.maxEntityFragment)).toNat then a
  else (a.storeFragment lastFlags view base now limits.maxEntityFragment limits.maxAssemblyBytes).1

variable (lastFlags limits reserved base now) in
/-- The entity has an entry: its buffer is used again, reset if the message is another one. -/
theorem offerFragment_of_some {a : FragmentAssembly} (hget : pending.get? view.entityIndex = some a) :
    (offerFragment lastFlags limits pending reserved view base now).pending =
        pending.set view.entityIndex (leftBy lastFlags limits reserved view base now
          (if a.overtaken base then {} else a)) ∧
      (offerFragment lastFlags limits pending reserved view base now).reserved = reserved := by
  unfold offerFragment leftBy FragmentAssembly.overtaken
  dsimp only
  rw [hget, if_neg (by simp)]
  simp only [Option.isNone_some, Bool.false_eq_true, if_false, Option.getD_some]
  generalize (if (a.active && a.messageTxBase != base && decide (a.messageTxBase < base)) = true
    then ({} : FragmentAssembly) else a) = t
  split
  · exact ⟨rfl, rfl⟩
  · exact ⟨Assemblies.set_set _ _ _ _, rfl⟩

variable (lastFlags limits reserved base now) in
/-- The entity has no entry: one is made, and its bytes are reserved before the store may refuse the
fragment. -/
theorem offerFragment_of_none (hget : pending.get? view.entityIndex = none)
    (hroom : pending.length < maxPendingFragmentAssemblies) :
    (offerFragment lastFlags limits pending reserved view base now).pending =
        pending.set view.entityIndex (leftBy lastFlags limits
          (reserved + UInt32.ofNat (view.fragmentCount.toNat * limits.maxEntityFragment)) view base
          now {}) ∧
      (offerFragment lastFlags limits pending reserved view base now).reserved =
        reserved + UInt32.ofNat (view.fragmentCount.toNat * limits.maxEntityFragment) := by
  unfold offerFragment leftBy
  dsimp only
  rw [hget, if_neg (by simpa using hroom)]
  simp only [Option.isNone_none, if_true, Option.getD_none, Bool.false_and, Bool.false_eq_true,
    if_false]
  split
  · exact ⟨rfl, rfl⟩
  · exact ⟨Assemblies.set_set _ _ _ _, rfl⟩

variable (lastFlags limits view base now) in
/-- What a fragment that opens an empty buffer leaves there. -/
theorem leftBy_empty (total : UInt32) :
    leftBy lastFlags limits total view base now {} = {} ∧
        (limits.maxAssemblyBytes < view.reserves limits ∨ limits.maxTotalFragmentBytes <
          (total + UInt32.ofNat (view.reserves limits)).toNat) ∨
      ((leftBy lastFlags limits total view base now {}).active = true ∧
        (leftBy lastFlags limits total view base now {}).data.length = view.reserves limits ∧
        (leftBy lastFlags limits total view base now {}).fragmentCount = view.fragmentCount) ∧
        view.reserves limits ≤ limits.maxAssemblyBytes ∧
        (total + UInt32.ofNat (view.reserves limits)).toNat ≤ limits.maxTotalFragmentBytes := by
  unfold leftBy EntityPayload.reserves
  split
  next hcap => exact .inl ⟨rfl, .inr hcap.2⟩
  next hcap =>
    have hcap : (total + UInt32.ofNat (view.fragmentCount.toNat * limits.maxEntityFragment)).toNat ≤
        limits.maxTotalFragmentBytes := by simpa using hcap
    rcases FragmentAssembly.storeFragment_open lastFlags view base now limits.maxEntityFragment
        limits.maxAssemblyBytes (a := {}) rfl with ⟨hsize, hstore⟩ | ⟨hsize, hactive, hcount, hdata⟩
    · rw [hstore]
      exact .inl ⟨rfl, .inl hsize⟩
    · exact .inr ⟨⟨hactive, hdata, hcount⟩, hsize, hcap⟩

variable (lastFlags limits view base now) in
/-- An assembly that goes on keeps its space. -/
theorem leftBy_active {a : FragmentAssembly} (total : UInt32) (h : a.active = true) :
    FragmentAssembly.SameSpace a (leftBy lastFlags limits total view base now a) := by
  unfold leftBy
  rw [if_neg (by simp [h])]
  exact FragmentAssembly.storeFragment_active h

variable (lastFlags now) in
/-- The books stay in order exactly if the fragment opens well. -/
theorem offerFragment_ledger_iff (h : Ledger pending reserved) (hvalid : limits.Valid) :
    Ledger (offerFragment lastFlags limits pending reserved view base now).pending
        (offerFragment lastFlags limits pending reserved view base now).reserved ↔
      OpensWell limits pending reserved view base := by
  have hlt := h.reserved_lt
  have hreserves := view.reserves_lt hvalid
  have hofNat := toNat_ofNat_of_lt hreserves
  unfold OpensWell
  cases hget : pending.get? view.entityIndex with
  | none =>
    dsimp only
    by_cases hroom : pending.length < maxPendingFragmentAssemblies
    · obtain ⟨hpending, hreserved⟩ :=
        offerFragment_of_none lastFlags limits reserved base now hget hroom
      rw [hpending, hreserved]
      have hsum : (reserved + UInt32.ofNat (view.reserves limits) +
          UInt32.ofNat (view.reserves limits)).toNat = reserved.toNat + 2 * view.reserves limits := by
        rw [UInt32.toNat_add, UInt32.toNat_add, hofNat]
        omega
      rcases leftBy_empty lastFlags limits view base now
          (reserved + UInt32.ofNat (view.reserves limits)) with
        ⟨hempty, hrefused⟩ | ⟨⟨hactive, hdata, -⟩, hsize, hcap⟩
      · constructor
        · intro hafter
          have hin := hafter.active _ (Assemblies.mem_set_self pending view.entityIndex _)
          change (leftBy _ _ (reserved + UInt32.ofNat (view.reserves limits)) _ _ _ _).active = true at hin
          rw [hempty] at hin
          cases hin
        · intro hopens
          obtain ⟨hsize, hcap⟩ := hopens hroom
          rw [hsum] at hrefused
          omega
      · refine ⟨fun _ _ => ⟨hsize, ?_⟩, fun _ => ?_⟩
        · rwa [hsum] at hcap
        · have hadd := h.add hget hroom hactive (by rw [hdata]; exact Nat.lt_of_le_of_lt hsize hvalid.assembly)
          rw [hdata] at hadd
          exact hadd
    · rw [offerFragment_full hget (Nat.not_lt.1 hroom)]
      exact ⟨fun _ hlt => absurd hlt hroom, fun _ => h⟩
  | some a =>
    dsimp only
    obtain ⟨hpending, hreserved⟩ := offerFragment_of_some lastFlags limits reserved base now hget
    rw [hpending, hreserved]
    by_cases hover : a.overtaken base = true
    · rw [if_pos hover]
      have hsum : (reserved + UInt32.ofNat (view.reserves limits)).toNat =
          reserved.toNat + view.reserves limits := by
        rw [UInt32.toNat_add, hofNat]
        omega
      rcases leftBy_empty lastFlags limits view base now reserved with
        ⟨hempty, hrefused⟩ | ⟨⟨hactive, hdata, -⟩, hsize, hcap⟩
      · constructor
        · intro hafter
          have hin := hafter.active _ (Assemblies.mem_set_self pending view.entityIndex _)
          rw [hempty] at hin
          cases hin
        · intro hopens
          obtain ⟨-, hsize, hcap⟩ := hopens hover
          rw [hsum] at hrefused
          omega
      · rw [hsum] at hcap
        refine ⟨fun hafter _ => ⟨?_, hsize, hcap⟩, fun hopens => ?_⟩
        · have hbytes := Assemblies.bytes_set_of_some h.keys hget
            (leftBy lastFlags limits reserved view base now {})
          have hbefore := h.total
          have htotal := hafter.total
          omega
        · exact h.replace hget hactive (hdata.trans (hopens hover).1)
    · rw [if_neg hover]
      have hsame := leftBy_active lastFlags limits view base now reserved
        (h.active _ (Assemblies.mem_of_get? hget))
      refine ⟨fun _ hover' => absurd hover' hover, fun _ => ?_⟩
      exact h.replace hget (hsame.active.trans (h.active _ (Assemblies.mem_of_get? hget))) hsame.data

/-- A message that is complete leaves the books with what it had reserved. -/
theorem Ledger.complete {a : FragmentAssembly} (h : Ledger pending reserved) (hvalid : limits.Valid)
    (hopens : OpensWell limits pending reserved view base)
    (ha : (offerFragment lastFlags limits pending reserved view base now).assembly = some a) :
    Ledger ((offerFragment lastFlags limits pending reserved view base now).pending.remove
        view.entityIndex)
      ((offerFragment lastFlags limits pending reserved view base now).reserved -
        UInt32.ofNat a.data.length) :=
  have hafter := (offerFragment_ledger_iff lastFlags now h hvalid).2 hopens
  hafter.remove (hafter.get?_of_mem (mem_of_assembly_offerFragment ha))

/-- The buffers have slots of one size. -/
def Sized (slot : Nat) (pending : Assemblies) : Prop :=
  ∀ p ∈ pending, p.2.data.length = p.2.fragmentCount.toNat * slot

variable (lastFlags view base now) in
theorem Sized.offer (h : Sized limits.maxEntityFragment pending) (hledger : Ledger pending reserved) :
    Sized limits.maxEntityFragment
      (offerFragment lastFlags limits pending reserved view base now).pending := by
  have hset {b : FragmentAssembly} (hb : b.data.length = b.fragmentCount.toNat * limits.maxEntityFragment) :
      Sized limits.maxEntityFragment (pending.set view.entityIndex b) := by
    intro p hp
    rcases Assemblies.mem_set hp with rfl | hp
    · exact hb
    · exact h p hp
  have hempty (total : UInt32) : (leftBy lastFlags limits total view base now {}).data.length =
      (leftBy lastFlags limits total view base now {}).fragmentCount.toNat * limits.maxEntityFragment := by
    rcases leftBy_empty lastFlags limits view base now total with ⟨hrefused, -⟩ | ⟨⟨-, hdata, hcount⟩, -⟩
    · rw [hrefused]
      exact (Nat.zero_mul _).symm
    · rw [hdata, hcount, EntityPayload.reserves]
  cases hget : pending.get? view.entityIndex with
  | none =>
    by_cases hroom : pending.length < maxPendingFragmentAssemblies
    · rw [(offerFragment_of_none lastFlags limits reserved base now hget hroom).1]
      exact hset (hempty _)
    · rw [offerFragment_full hget (Nat.not_lt.1 hroom)]
      exact h
  | some a =>
    rw [(offerFragment_of_some lastFlags limits reserved base now hget).1]
    refine hset ?_
    have hmem := Assemblies.mem_of_get? hget
    split
    · exact hempty _
    · have hsame := leftBy_active lastFlags limits view base now reserved (hledger.active _ hmem)
      rw [hsame.data, hsame.count]
      exact h _ hmem

/-! ## No lasting refusal -/

/-- A fragment of a message that fits a buffer. -/
structure FragmentLimits.HasSlot (limits : FragmentLimits) (view : EntityPayload) : Prop where
  index : view.fragmentIndex.toNat < view.fragmentCount.toNat
  value : view.value.length ≤ limits.maxEntityFragment
  size : view.reserves limits ≤ limits.maxAssemblyBytes

variable (lastFlags base now) in
theorem FragmentLimits.HasSlot.store (h : limits.HasSlot view) :
    ∃ b, ({} : FragmentAssembly).storeFragment lastFlags view base now limits.maxEntityFragment
      limits.maxAssemblyBytes = (b, true) := by
  have hslot : (view.fragmentIndex.toNat + 1) * limits.maxEntityFragment ≤ view.reserves limits :=
    Nat.mul_le_mul_right _ h.index
  have hvalue := h.value
  have hsize := h.size
  have hle : limits.maxEntityFragment ≤ view.reserves limits :=
    Nat.le_mul_of_pos_left _ (Nat.lt_of_le_of_lt (Nat.zero_le _) h.index)
  rw [Nat.succ_mul] at hslot
  unfold EntityPayload.reserves at hslot hsize hle
  unfold FragmentAssembly.storeFragment FragmentAssembly.openFor
  rw [if_neg (by simp)]
  dsimp only
  rw [if_neg (by omega)]
  dsimp only
  generalize hd : (if lastFlags = true then FragmentAssembly.takeLastFlags _ view else _) = d
  have hfields : d.received = List.replicate view.fragmentCount.toNat false ∧
      d.data.length = view.fragmentCount.toNat * limits.maxEntityFragment ∧ d.bytesReceived = 0 := by
    rw [← hd]
    split
    · unfold FragmentAssembly.takeLastFlags
      split <;> exact ⟨rfl, List.length_replicate, rfl⟩
    · exact ⟨rfl, List.length_replicate, rfl⟩
  obtain ⟨hreceived, hdata, hbytes⟩ := hfields
  have hfresh : d.received.getD view.fragmentIndex.toNat false = false := by
    rw [hreceived, List.getD_eq_getElem?_getD, List.getElem?_replicate]
    split <;> rfl
  rw [hfresh, if_neg (by simp), if_neg (by omega)]
  refine ⟨_, Prod.ext (rfl) ?_⟩
  simp only [FragmentAssembly.put, hbytes, decide_eq_true_eq]
  omega

variable (lastFlags base) in
/-- When the buffers that are there have expired, every message that fits is taken again. -/
theorem Ledger.taken (h : Ledger pending reserved) (hvalid : limits.Valid) (htakes : limits.HasSlot view)
    (hquiet : ∀ p ∈ pending, fragmentAssemblyTimeoutMs ≤ now - p.2.lastSeenMs) :
    (offerFragment lastFlags limits (pending.filter fun p => !p.2.expired now)
      (reserved - UInt32.ofNat (Assemblies.bytes (pending.filter fun p => p.2.expired now))) view base
      now).assembly.isSome = true := by
  have hgone : ∀ p ∈ pending, p.2.expired now = true := by
    intro p hp
    rw [FragmentAssembly.expired, h.active p hp, Bool.true_and, decide_eq_true_eq]
    exact hquiet p hp
  have hnone : (pending.filter fun p => !p.2.expired now) = [] :=
    List.filter_eq_nil_iff.2 fun p hp => by simp [hgone p hp]
  have hledger := h.drop fun p => p.2.expired now
  rw [hnone] at hledger
  have hzero : reserved - UInt32.ofNat (Assemblies.bytes (pending.filter fun p => p.2.expired now)) = 0 :=
    UInt32.toNat_inj.1 hledger.total
  obtain ⟨b, hb⟩ := htakes.store lastFlags base now
  have hsize := htakes.size
  have htotal := hvalid.total
  rw [hnone, hzero, offerFragment_first (Nat.le_trans (Nat.mul_le_mul_left 2 hsize) htotal) hvalid.word hb]
  rfl

end

/-- What the counter of a map of buffers is for.  `pruned` is what the loop leaves of the buffers at
the time that `clock` gives. -/
structure Accounted {ε : Type} (lastFlags : Bool) (limits : FragmentLimits) (pending : Assemblies)
    (reserved : UInt32) (clock : ε → UInt32) (pruned : ε → Assemblies × UInt32) : Prop where
  total : reserved.toNat = pending.bytes
  active : ∀ p ∈ pending, p.2.active = true
  taken (e : ε) (view : EntityPayload) (base : UInt32) (htakes : limits.HasSlot view)
    (hquiet : ∀ p ∈ pending, fragmentAssemblyTimeoutMs ≤ clock e - p.2.lastSeenMs) :
    (offerFragment lastFlags limits (pruned e).1 (pruned e).2 view base (clock e)).assembly.isSome = true

end EspTree
