import EspTree.Fragment

/-!
# Putting fragments together

A value is cut into parts of `fragSize` bytes, and the receiver keeps a slot of `slot` bytes for
each of them.  The two sizes come from the limits of the two ends, which need not be equal; the
value comes out right as long as a part fits its slot.

`Holds` says that a buffer holds parts of one value.  `storeFragment` keeps it, and a complete
buffer that has it assembles to the value.

`IsPart` says that a fragment is the part of a value at its index.  A buffer that `Holds` has such
parts wherever its bits are set, so that a fragment which was there already changes nothing and the
order does not matter.  The length of the value comes out right because the lengths of the parts are
kept beside the data.

The condition on the sizes is `fragSize ≤ slot`; `FragmentLimits.Room` has it together with the bounds
under which a buffer is opened at all.  Without it a part would run into the slot of the next one;
`Reassembly` has the exact condition for fragments of any length.
-/

namespace EspTree

open Wire

/-- An empty value is sent in one fragment as well. -/
theorem chunkCount_pos (len fragSize : Nat) : 0 < chunkCount len fragSize :=
  Nat.lt_of_lt_of_le Nat.one_pos (Nat.le_max_left _ _)

/-- The parts cover the value. -/
theorem le_chunkCount_mul {len fragSize : Nat} (h : 0 < fragSize) :
    len ≤ chunkCount len fragSize * fragSize := by
  have hdiv := Nat.div_add_mod (len + fragSize - 1) fragSize
  have hmod := Nat.mod_lt (len + fragSize - 1) h
  have hle : (len + fragSize - 1) / fragSize ≤ chunkCount len fragSize := Nat.le_max_right _ _
  have hmul := Nat.mul_le_mul_left fragSize hle
  rw [Nat.mul_comm (chunkCount len fragSize)]
  omega

/-- `view` is one of the parts of `value`. -/
structure IsPart (view : EntityPayload) (value : Bytes) (fragSize : Nat) : Prop where
  count : view.fragmentCount.toNat = chunkCount value.length fragSize
  index : view.fragmentIndex.toNat < chunkCount value.length fragSize
  value : view.value = slice value (view.fragmentIndex.toNat * fragSize) fragSize

theorem IsPart.length_le {view : EntityPayload} {value : Bytes} {fragSize : Nat}
    (h : IsPart view value fragSize) : view.value.length ≤ fragSize := by
  rw [h.value, slice, List.length_take]
  exact Nat.min_le_left _ _

/-- The part with number `n`. -/
theorem isPart_of_lt {value : Bytes} {fragSize n : Nat} (index flags : UInt8)
    (hn : n < chunkCount value.length fragSize) (hcount : chunkCount value.length fragSize < 2 ^ 8) :
    IsPart ⟨index, flags, UInt8.ofNat n, UInt8.ofNat (chunkCount value.length fragSize),
      slice value (n * fragSize) fragSize⟩ value fragSize := by
  have hindex : (UInt8.ofNat n).toNat = n := UInt8.toNat_ofNat_of_lt' (Nat.lt_trans hn hcount)
  refine ⟨UInt8.toNat_ofNat_of_lt' hcount, ?_, ?_⟩
  · rw [hindex]
    exact hn
  · rw [hindex]

namespace FragmentAssembly

/-- The buffer holds parts of `value`, in slots of `slot` bytes. -/
structure Holds (a : FragmentAssembly) (value : Bytes) (fragSize slot : Nat) : Prop where
  active : a.active
  count : a.fragmentCount.toNat = chunkCount value.length fragSize
  data : a.data.length = chunkCount value.length fragSize * slot
  lengths : a.lengths.length = chunkCount value.length fragSize
  received : a.received.length = chunkCount value.length fragSize
  parts : ∀ i, a.received.getD i false → i < chunkCount value.length fragSize ∧
    a.lengths.getD i 0 = (slice value (i * fragSize) fragSize).length ∧
    slice a.data (i * slot) (a.lengths.getD i 0) = slice value (i * fragSize) fragSize

section

variable {a b : FragmentAssembly} {view : EntityPayload} {value : Bytes} {fragSize slot : Nat}
  {base now : UInt32} {maxAssembly : Nat} {lastFlags : Bool}

/-- The flags and the times of a buffer do not matter. -/
theorem Holds.congr (h : a.Holds value fragSize slot) (hactive : b.active = a.active)
    (hcount : b.fragmentCount = a.fragmentCount) (hdata : b.data = a.data)
    (hlengths : b.lengths = a.lengths) (hreceived : b.received = a.received) :
    b.Holds value fragSize slot := by
  refine ⟨hactive.trans h.active, ?_, ?_, ?_, ?_, ?_⟩
  · rw [hcount]
    exact h.count
  · rw [hdata]
    exact h.data
  · rw [hlengths]
    exact h.lengths
  · rw [hreceived]
    exact h.received
  · rw [hreceived, hlengths, hdata]
    exact h.parts

theorem Holds.takeLastFlags (h : a.Holds value fragSize slot) (view : EntityPayload) :
    (a.takeLastFlags view).Holds value fragSize slot := by
  unfold FragmentAssembly.takeLastFlags
  split
  · exact h.congr rfl rfl rfl rfl rfl
  · exact h

/-- A new buffer holds nothing yet. -/
theorem openFor_holds (hpart : IsPart view value fragSize) (hfree : a.active = false)
    (hopen : a.openFor view base now slot maxAssembly = some b) :
    b.Holds value fragSize slot ∧ b.messageTxBase = base := by
  unfold openFor at hopen
  rw [if_neg (by rw [hfree]; exact Bool.false_ne_true)] at hopen
  dsimp only at hopen
  split at hopen
  · cases hopen
  · cases hopen
    refine ⟨⟨rfl, hpart.count, ?_, ?_, ?_, fun i hi => ?_⟩, rfl⟩
    · rw [List.length_replicate, hpart.count]
    · rw [List.length_replicate, hpart.count]
    · rw [List.length_replicate, hpart.count]
    · rw [List.getD_eq_getElem?_getD, List.getElem?_replicate] at hi
      split at hi <;> cases hi

/-- There is a slot for every part. -/
theorem Holds.fits (h : a.Holds value fragSize slot) (hpart : IsPart view value fragSize)
    (hslot : fragSize ≤ slot) :
    view.fragmentIndex.toNat * slot + view.value.length ≤ a.data.length := by
  have hlen := hpart.length_le
  rw [h.data]
  calc view.fragmentIndex.toNat * slot + view.value.length
      ≤ view.fragmentIndex.toNat * slot + slot := by omega
    _ = (view.fragmentIndex.toNat + 1) * slot := by rw [Nat.succ_mul]
    _ ≤ chunkCount value.length fragSize * slot := Nat.mul_le_mul_right slot hpart.index

/-- A part is put into its slot. -/
theorem Holds.put (h : a.Holds value fragSize slot) (hpart : IsPart view value fragSize)
    (hslot : fragSize ≤ slot) (hsize : fragSize < 2 ^ 16) :
    (a.put view slot).Holds value fragSize slot := by
  have hlen := hpart.length_le
  have hfits := h.fits hpart hslot
  have hshort : view.value.length % 2 ^ 16 = view.value.length :=
    Nat.mod_eq_of_lt (Nat.lt_of_le_of_lt hlen hsize)
  refine ⟨h.active, h.count, ?_, ?_, ?_, fun i hi => ?_⟩
  · exact (length_overwrite hfits).trans h.data
  · exact (List.length_set ..).trans h.lengths
  · exact (List.length_set ..).trans h.received
  · unfold FragmentAssembly.put at hi ⊢
    dsimp only at hi ⊢
    rw [hshort]
    by_cases hsame : view.fragmentIndex.toNat = i
    · subst hsame
      have hlengths : (a.lengths.set view.fragmentIndex.toNat view.value.length).getD
          view.fragmentIndex.toNat 0 = view.value.length := by
        rw [List.getD_eq_getElem?_getD, List.getElem?_set_self (by rw [h.lengths]; exact hpart.index)]
        rfl
      rw [hlengths, slice_overwrite_self hfits, ← hpart.value]
      exact ⟨hpart.index, rfl, rfl⟩
    · have hreceived : a.received.getD i false := by
        rwa [List.getD_eq_getElem?_getD, List.getElem?_set_ne hsame, ← List.getD_eq_getElem?_getD] at hi
      obtain ⟨hi, hlength, hslice⟩ := h.parts i hreceived
      have hlengths : (a.lengths.set view.fragmentIndex.toNat view.value.length).getD i 0 =
          a.lengths.getD i 0 := by
        rw [List.getD_eq_getElem?_getD, List.getElem?_set_ne hsame, ← List.getD_eq_getElem?_getD]
      refine ⟨hi, hlengths.trans hlength, ?_⟩
      rw [hlengths, slice_overwrite_of_disjoint hfits ?_]
      · exact hslice
      · -- the slots are disjoint, and a part does not leave its slot
        have hle : a.lengths.getD i 0 ≤ fragSize := by
          rw [hlength, slice, List.length_take]
          exact Nat.min_le_left _ _
        rcases Nat.lt_or_gt_of_ne hsame with hlt | hgt
        · refine .inr ?_
          have hmul := Nat.mul_le_mul_right slot (Nat.succ_le_of_lt hlt)
          rw [Nat.succ_mul] at hmul
          omega
        · refine .inl ?_
          have hmul := Nat.mul_le_mul_right slot (Nat.succ_le_of_lt hgt)
          rw [Nat.succ_mul] at hmul
          omega

/-- A fragment that is stored leaves the buffer as it was, or among the parts of its own value. -/
theorem storeFragment_holds (hpart : IsPart view value fragSize) (hslot : fragSize ≤ slot)
    (hsize : fragSize < 2 ^ 16)
    (hopen : a.active → a.messageTxBase = base → a.fragmentCount = view.fragmentCount →
      a.Holds value fragSize slot) :
    a.storeFragment lastFlags view base now slot maxAssembly = (a, false) ∨
      ((a.storeFragment lastFlags view base now slot maxAssembly).1.Holds value fragSize slot ∧
        (a.storeFragment lastFlags view base now slot maxAssembly).1.messageTxBase = base) := by
  unfold storeFragment
  cases hb : a.openFor view base now slot maxAssembly with
  | none => exact .inl rfl
  | some b =>
    have hholds : b.Holds value fragSize slot ∧ b.messageTxBase = base := by
      cases hactive : a.active with
      | false => exact openFor_holds hpart hactive hb
      | true =>
        unfold openFor at hb
        rw [if_pos hactive] at hb
        split at hb
        · cases hb
        next hsame =>
          rw [not_or, not_not, not_not] at hsame
          cases hb
          exact ⟨(hopen hactive hsame.1 hsame.2).congr rfl rfl rfl rfl rfl, hsame.1⟩
    obtain ⟨d, hd, hflags⟩ : ∃ d, d = (if lastFlags then b.takeLastFlags view else b) ∧
        d.Holds value fragSize slot ∧ d.messageTxBase = base := by
      refine ⟨_, rfl, ?_⟩
      split
      · refine ⟨hholds.1.takeLastFlags view, ?_⟩
        unfold FragmentAssembly.takeLastFlags
        split <;> exact hholds.2
      · exact hholds
    dsimp only
    rw [← hd]
    split
    · exact .inr hflags
    · split
      · exact .inr hflags
      · exact .inr ⟨hflags.1.put hpart hslot hsize, hflags.2⟩

/-- A fragment is taken by a buffer of its own message. -/
theorem storeFragment_base (h : a.storeFragment lastFlags view base now slot maxAssembly = (b, true)) :
    b.messageTxBase = base := by
  unfold storeFragment at h
  cases hopen : a.openFor view base now slot maxAssembly with
  | none =>
    rw [hopen] at h
    cases h
  | some d =>
    have hbase : d.messageTxBase = base := by
      unfold openFor at hopen
      dsimp only at hopen
      split at hopen
      · split at hopen
        · cases hopen
        next hsame =>
          cases hopen
          exact not_not.mp (not_or.mp hsame).1
      · split at hopen
        · cases hopen
        · cases hopen
          rfl
    have hflags : (if lastFlags then d.takeLastFlags view else d).messageTxBase = base := by
      unfold FragmentAssembly.takeLastFlags
      split
      · split <;> exact hbase
      · exact hbase
    rw [hopen] at h
    dsimp only at h
    generalize (if lastFlags then d.takeLastFlags view else d) = d' at h hflags
    split at h
    · rw [← (Prod.mk.inj h).1]
      exact hflags
    · split at h
      · cases h
      · rw [← (Prod.mk.inj h).1]
        exact hflags

/-- A complete buffer assembles to the value. -/
theorem Holds.assemble (h : a.Holds value fragSize slot) (hcomplete : a.complete)
    (hpos : 0 < fragSize) : a.assemble slot = value := by
  have hall : ∀ i < chunkCount value.length fragSize, a.received.getD i false := by
    intro i hi
    unfold complete at hcomplete
    simp only [Bool.and_eq_true, List.all_eq_true, List.mem_range, h.count] at hcomplete
    exact hcomplete.2 i hi
  have hparts : a.assemble slot =
      (List.range (chunkCount value.length fragSize)).flatMap
        (fun i => slice value (i * fragSize) fragSize) := by
    unfold FragmentAssembly.assemble
    rw [h.count]
    refine List.flatMap_congr fun i hi => ?_
    exact (h.parts i (hall i (List.mem_range.mp hi))).2.2
  rw [hparts, flatMap_slice, List.take_of_length_le (le_chunkCount_mul hpos)]

end

end FragmentAssembly

/-! ## The pending buffers -/

namespace Assemblies

theorem mem_of_get? {as : Assemblies} {i : UInt8} {a : FragmentAssembly} (h : as.get? i = some a) :
    (i, a) ∈ as := by
  obtain ⟨l₁, l₂, rfl, -⟩ := List.lookup_eq_some_iff.mp h
  exact List.mem_append_right _ List.mem_cons_self

/-- Setting a buffer leaves the others in the map. -/
theorem mem_set {as : Assemblies} {i : UInt8} {a : FragmentAssembly} {p : UInt8 × FragmentAssembly}
    (h : p ∈ as.set i a) : p = (i, a) ∨ p ∈ as := by
  unfold set at h
  split at h
  · obtain ⟨q, hq, rfl⟩ := List.mem_map.mp h
    split
    · exact .inl rfl
    · exact .inr hq
  · rcases List.mem_append.mp h with h | h
    · exact .inr h
    · exact .inl (List.mem_singleton.mp h)

theorem mem_set_self (as : Assemblies) (i : UInt8) (a : FragmentAssembly) : (i, a) ∈ as.set i a := by
  unfold set
  split
  next hsome =>
    obtain ⟨b, hb⟩ := Option.isSome_iff_exists.mp hsome
    exact List.mem_map.mpr ⟨(i, b), mem_of_get? hb, by simp⟩
  · exact List.mem_append_right _ List.mem_cons_self

end Assemblies

section

variable {lastFlags : Bool} {limits : FragmentLimits} {pending : Assemblies} {reserved : UInt32}
  {view : EntityPayload} {base now : UInt32}

/-- The buffer that a fragment is offered to: the one of its entity, or an empty one. -/
def Offered (pending : Assemblies) (view : EntityPayload) (a : FragmentAssembly) : Prop :=
  a = {} ∨ pending.get? view.entityIndex = some a

/-- A newer message takes the place of an unfinished one. -/
theorem offered_reset (pending : Assemblies) (view : EntityPayload) (base : UInt32) :
    Offered pending view (if ((pending.get? view.entityIndex).getD {}).active &&
      ((pending.get? view.entityIndex).getD {}).messageTxBase != base &&
      decide (((pending.get? view.entityIndex).getD {}).messageTxBase < base) then {}
      else (pending.get? view.entityIndex).getD {}) := by
  split
  · exact .inl rfl
  · cases hget : pending.get? view.entityIndex with
    | none => exact .inl rfl
    | some a => exact .inr hget

/-- What an offer leaves pending: other buffers, the one that the fragment was offered to, and that
one with the fragment. -/
theorem mem_offerFragment {p : UInt8 × FragmentAssembly}
    (h : p ∈ (offerFragment lastFlags limits pending reserved view base now).pending) :
    p ∈ pending ∨ p.1 = view.entityIndex ∧ ∃ a, Offered pending view a ∧
      (p.2 = a ∨ p.2 = (a.storeFragment lastFlags view base now limits.maxEntityFragment
        limits.maxAssemblyBytes).1) := by
  unfold offerFragment at h
  dsimp only at h
  split at h
  · exact .inl h
  · have hoffered := offered_reset pending view base
    generalize (if ((pending.get? view.entityIndex).getD {}).active &&
      ((pending.get? view.entityIndex).getD {}).messageTxBase != base &&
      decide (((pending.get? view.entityIndex).getD {}).messageTxBase < base) then {}
      else (pending.get? view.entityIndex).getD {}) = a at hoffered h
    generalize (if (pending.get? view.entityIndex).isNone then _ else reserved) = total at h
    split at h
    · rcases Assemblies.mem_set h with rfl | h
      · exact .inr ⟨rfl, a, hoffered, .inl rfl⟩
      · exact .inl h
    · rcases Assemblies.mem_set h with rfl | h
      · exact .inr ⟨rfl, a, hoffered, .inr rfl⟩
      · rcases Assemblies.mem_set h with rfl | h
        · exact .inr ⟨rfl, a, hoffered, .inl rfl⟩
        · exact .inl h

/-- What a fragment that was taken leaves in its buffer. -/
theorem assembly_offerFragment {a : FragmentAssembly}
    (h : (offerFragment lastFlags limits pending reserved view base now).assembly = some a) :
    ∃ a₀, Offered pending view a₀ ∧ a₀.storeFragment lastFlags view base now
      limits.maxEntityFragment limits.maxAssemblyBytes = (a, true) := by
  unfold offerFragment at h
  dsimp only at h
  split at h
  · cases h
  · have hoffered := offered_reset pending view base
    generalize (if ((pending.get? view.entityIndex).getD {}).active &&
      ((pending.get? view.entityIndex).getD {}).messageTxBase != base &&
      decide (((pending.get? view.entityIndex).getD {}).messageTxBase < base) then {}
      else (pending.get? view.entityIndex).getD {}) = a₀ at hoffered h
    generalize (if (pending.get? view.entityIndex).isNone then _ else reserved) = total at h
    split at h
    · cases h
    · refine ⟨a₀, hoffered, ?_⟩
      cases hstore : a₀.storeFragment lastFlags view base now limits.maxEntityFragment
          limits.maxAssemblyBytes with
      | mk b ok =>
        rw [hstore] at h
        cases ok with
        | false => cases h
        | true => exact congrArg (·, true) (Option.some.inj h)

/-- A buffer that took a fragment is pending. -/
theorem mem_of_assembly_offerFragment {a : FragmentAssembly}
    (h : (offerFragment lastFlags limits pending reserved view base now).assembly = some a) :
    (view.entityIndex, a) ∈ (offerFragment lastFlags limits pending reserved view base now).pending := by
  unfold offerFragment at h ⊢
  dsimp only at h ⊢
  split at h
  · cases h
  next hroom =>
    rw [if_neg hroom]
    generalize (if ((pending.get? view.entityIndex).getD {}).active &&
      ((pending.get? view.entityIndex).getD {}).messageTxBase != base &&
      decide (((pending.get? view.entityIndex).getD {}).messageTxBase < base) then {}
      else (pending.get? view.entityIndex).getD {}) = a₀ at h ⊢
    generalize (if (pending.get? view.entityIndex).isNone then _ else reserved) = total at h ⊢
    split at h
    · cases h
    next hcap =>
      rw [if_neg hcap]
      split at h
      · rw [← Option.some.inj h]
        exact Assemblies.mem_set_self _ _ _
      · cases h

end

/-! ## A whole message -/

/-- The first `n` parts of a message are offered to empty buffers, one after the other. -/
def offerParts (lastFlags : Bool) (limits : FragmentLimits) (parts : Nat → EntityPayload)
    (base now : UInt32) : Nat → Stored
  | 0 => ⟨[], 0, none⟩
  | n + 1 =>
    let stored := offerParts lastFlags limits parts base now n
    offerFragment lastFlags limits stored.pending stored.reserved (parts n) base now

/-- The limits leave room for a value in parts of `fragSize` bytes.  The caps count what a new buffer
reserves twice. -/
structure FragmentLimits.Room (limits : FragmentLimits) (value : Bytes) (fragSize : Nat) : Prop where
  pos : 0 < fragSize
  slot : fragSize ≤ limits.maxEntityFragment
  size : fragSize < 2 ^ 16
  count : chunkCount value.length fragSize < 2 ^ 8
  assembly : chunkCount value.length fragSize * limits.maxEntityFragment ≤ limits.maxAssemblyBytes
  total : 2 * (chunkCount value.length fragSize * limits.maxEntityFragment) ≤
    limits.maxTotalFragmentBytes
  word : limits.maxTotalFragmentBytes < 2 ^ 32

/-- The buffer of `value` has its first `n` parts. -/
structure FragmentAssembly.Filled (a : FragmentAssembly) (value : Bytes) (fragSize slot : Nat)
    (base : UInt32) (n : Nat) : Prop where
  holds : a.Holds value fragSize slot
  base : a.messageTxBase = base
  received : ∀ i, a.received.getD i false = decide (i < n)
  bytes : a.bytesReceived ≤ n * fragSize

section

variable {lastFlags : Bool} {limits : FragmentLimits} {parts : Nat → EntityPayload} {index : UInt8}
  {base now : UInt32} {value : Bytes} {fragSize n : Nat} {a b : FragmentAssembly}
  {view : EntityPayload}

open FragmentAssembly in
/-- The next part goes into an open buffer. -/
theorem FragmentAssembly.Filled.store (lastFlags : Bool) (now : UInt32)
    (h : a.Filled value fragSize limits.maxEntityFragment base n)
    (hroom : limits.Room value fragSize) (hpart : IsPart view value fragSize)
    (hindex : view.fragmentIndex.toNat = n) (hcount : a.fragmentCount = view.fragmentCount) :
    ∃ b, a.storeFragment lastFlags view base now limits.maxEntityFragment limits.maxAssemblyBytes =
      (b, true) ∧ b.Filled value fragSize limits.maxEntityFragment base (n + 1) ∧
      b.fragmentCount = view.fragmentCount := by
  obtain ⟨d, hd, hfilled, hdcount⟩ : ∃ d, d = (if lastFlags then
      FragmentAssembly.takeLastFlags { a with lastSeenMs := now } view
      else { a with lastSeenMs := now }) ∧
      d.Filled value fragSize limits.maxEntityFragment base n ∧
      d.fragmentCount = view.fragmentCount := by
    refine ⟨_, rfl, ?_⟩
    have hseen : FragmentAssembly.Filled { a with lastSeenMs := now } value fragSize
        limits.maxEntityFragment base n :=
      ⟨h.holds.congr rfl rfl rfl rfl rfl, h.base, h.received, h.bytes⟩
    split
    · unfold FragmentAssembly.takeLastFlags
      split
      · exact ⟨⟨hseen.holds.congr rfl rfl rfl rfl rfl, hseen.base, hseen.received, hseen.bytes⟩,
          hcount⟩
      · exact ⟨hseen, hcount⟩
    · exact ⟨hseen, hcount⟩
  have hbytes : d.bytesReceived + view.value.length ≤ (n + 1) * fragSize := by
    rw [Nat.succ_mul]
    exact Nat.add_le_add hfilled.bytes hpart.length_le
  have hbound : (n + 1) * fragSize ≤ limits.maxAssemblyBytes :=
    calc (n + 1) * fragSize ≤ chunkCount value.length fragSize * fragSize :=
          Nat.mul_le_mul_right fragSize (hindex ▸ hpart.index)
      _ ≤ chunkCount value.length fragSize * limits.maxEntityFragment :=
          Nat.mul_le_mul_left _ hroom.slot
      _ ≤ limits.maxAssemblyBytes := hroom.assembly
  refine ⟨d.put view limits.maxEntityFragment, ?_, ⟨hfilled.holds.put hpart hroom.slot hroom.size,
    hfilled.base, fun i => ?_, hbytes⟩, hdcount⟩
  · have hopen : a.openFor view base now limits.maxEntityFragment limits.maxAssemblyBytes =
        some { a with lastSeenMs := now } := by
      unfold openFor
      rw [if_pos h.holds.active, if_neg (by simp [h.base, hcount])]
    unfold storeFragment
    rw [hopen]
    dsimp only
    rw [← hd, if_neg (by rw [hfilled.received, hindex]; simp),
      if_neg (Nat.not_lt.mpr (hfilled.holds.fits hpart hroom.slot))]
    exact congrArg _ (decide_eq_true (hbytes.trans hbound))
  · have hlen : d.received.length = chunkCount value.length fragSize := hfilled.holds.received
    have hput : (d.put view limits.maxEntityFragment).received = d.received.set n true := by
      rw [← hindex]
      rfl
    rw [hput, List.getD_eq_getElem?_getD]
    by_cases hi : n = i
    · subst hi
      rw [List.getElem?_set_self (by rw [hlen, ← hindex]; exact hpart.index)]
      simp
    · rw [List.getElem?_set_ne hi, ← List.getD_eq_getElem?_getD, hfilled.received]
      exact decide_eq_decide.mpr (by omega)

/-- The first part opens a buffer. -/
theorem FragmentAssembly.storeFragment_filled (lastFlags : Bool) (base now : UInt32)
    (hroom : limits.Room value fragSize) (hpart : IsPart view value fragSize) (hindex : view.fragmentIndex.toNat = 0) :
    ∃ b, ({} : FragmentAssembly).storeFragment lastFlags view base now limits.maxEntityFragment
      limits.maxAssemblyBytes = (b, true) ∧
      b.Filled value fragSize limits.maxEntityFragment base 1 ∧
      b.fragmentCount = view.fragmentCount := by
  have hreserved : ¬ limits.maxAssemblyBytes < view.fragmentCount.toNat * limits.maxEntityFragment := by
    rw [hpart.count]
    exact Nat.not_lt.mpr hroom.assembly
  obtain ⟨d, hd⟩ : ∃ d, ({} : FragmentAssembly).openFor view base now limits.maxEntityFragment
      limits.maxAssemblyBytes = some d := by
    unfold openFor
    rw [if_neg (by exact Bool.false_ne_true)]
    dsimp only
    rw [if_neg hreserved]
    exact ⟨_, rfl⟩
  -- to open the buffer and then store into it comes to the same
  have hfields : d.messageTxBase = base ∧ d.fragmentCount = view.fragmentCount ∧
      d.lastSeenMs = now ∧ d.bytesReceived = 0 ∧
      d.received = List.replicate view.fragmentCount.toNat false := by
    unfold openFor at hd
    rw [if_neg (by exact Bool.false_ne_true)] at hd
    dsimp only at hd
    rw [if_neg hreserved] at hd
    cases hd
    exact ⟨rfl, rfl, rfl, rfl, rfl⟩
  obtain ⟨hbase, hcount, hseen, hbytes, hreceived⟩ := hfields
  have hholds := (openFor_holds hpart rfl hd).1
  have hagain : d.openFor view base now limits.maxEntityFragment limits.maxAssemblyBytes = some d := by
    unfold openFor
    rw [if_pos hholds.active, if_neg (by simp [hbase, hcount]), ← hseen]
  have hsame : ({} : FragmentAssembly).storeFragment lastFlags view base now
      limits.maxEntityFragment limits.maxAssemblyBytes =
      d.storeFragment lastFlags view base now limits.maxEntityFragment limits.maxAssemblyBytes := by
    unfold storeFragment
    rw [hd, hagain]
  rw [hsame]
  refine Filled.store lastFlags now ⟨hholds, hbase, fun i => ?_, ?_⟩ hroom hpart hindex hcount
  · rw [hreceived, List.getD_eq_getElem?_getD, List.getElem?_replicate]
    split <;> rfl
  · rw [hbytes]
    exact Nat.zero_le _

/-- The buffer that a fragment opens. -/
theorem offerFragment_first
    (htotal : 2 * (view.fragmentCount.toNat * limits.maxEntityFragment) ≤ limits.maxTotalFragmentBytes)
    (hword : limits.maxTotalFragmentBytes < 2 ^ 32)
    (hstore : ({} : FragmentAssembly).storeFragment lastFlags view base now limits.maxEntityFragment
      limits.maxAssemblyBytes = (b, true)) :
    offerFragment lastFlags limits [] 0 view base now =
      ⟨[(view.entityIndex, b)], UInt32.ofNat (view.fragmentCount.toNat * limits.maxEntityFragment),
        some b⟩ := by
  have hcap : (view.fragmentCount.toNat * limits.maxEntityFragment +
      view.fragmentCount.toNat * limits.maxEntityFragment) % 4294967296 ≤
      limits.maxTotalFragmentBytes := by omega
  unfold offerFragment
  simp [Assemblies.get?, Assemblies.set, maxPendingFragmentAssemblies, hstore, hcap]

/-- The buffer that a fragment finds open. -/
theorem offerFragment_next {reserved : UInt32} (hactive : a.active) (hbase : a.messageTxBase = base)
    (hstore : a.storeFragment lastFlags view base now limits.maxEntityFragment
      limits.maxAssemblyBytes = (b, true)) :
    offerFragment lastFlags limits [(view.entityIndex, a)] reserved view base now =
      ⟨[(view.entityIndex, b)], reserved, some b⟩ := by
  unfold offerFragment
  simp [Assemblies.get?, Assemblies.set, hactive, hbase, hstore]

/-- The parts of a message that there is room for are all taken. -/
theorem offerParts_filled (lastFlags : Bool) (base now : UInt32) (hroom : limits.Room value fragSize)
    (hparts : ∀ n < chunkCount value.length fragSize, IsPart (parts n) value fragSize ∧
      (parts n).fragmentIndex.toNat = n ∧ (parts n).entityIndex = index)
    (hn : n < chunkCount value.length fragSize) :
    ∃ a reserved, offerParts lastFlags limits parts base now (n + 1) = ⟨[(index, a)], reserved, some a⟩ ∧
      a.Filled value fragSize limits.maxEntityFragment base (n + 1) := by
  induction n with
  | zero =>
    obtain ⟨hpart, hindex, hentity⟩ := hparts 0 hn
    obtain ⟨b, hstore, hfilled, -⟩ := FragmentAssembly.storeFragment_filled
      lastFlags base now hroom hpart hindex
    have htotal := hroom.total
    rw [← hpart.count] at htotal
    refine ⟨b, UInt32.ofNat ((parts 0).fragmentCount.toNat * limits.maxEntityFragment), ?_, hfilled⟩
    rw [← hentity]
    exact offerFragment_first htotal hroom.word hstore
  | succ n ih =>
    obtain ⟨a, reserved, hoffer, hfilled⟩ := ih (Nat.lt_of_succ_lt hn)
    obtain ⟨hpart, hindex, hentity⟩ := hparts (n + 1) hn
    have hcount : a.fragmentCount = (parts (n + 1)).fragmentCount :=
      UInt8.toNat_inj.mp (hfilled.holds.count.trans hpart.count.symm)
    obtain ⟨b, hstore, hfilled', -⟩ := hfilled.store lastFlags now hroom hpart hindex hcount
    refine ⟨b, reserved, ?_, hfilled'⟩
    rw [offerParts, hoffer, ← hentity]
    exact offerFragment_next hfilled.holds.active hfilled.base hstore

/-- A message that there is room for comes out whole. -/
theorem offerParts_complete (lastFlags : Bool) (base now : UInt32) (hroom : limits.Room value fragSize)
    (hparts : ∀ n < chunkCount value.length fragSize, IsPart (parts n) value fragSize ∧
      (parts n).fragmentIndex.toNat = n ∧ (parts n).entityIndex = index) :
    ∃ a, (offerParts lastFlags limits parts base now (chunkCount value.length fragSize)).assembly =
      some a ∧ a.complete ∧ a.assemble limits.maxEntityFragment = value := by
  obtain ⟨n, hn⟩ := Nat.exists_eq_succ_of_ne_zero (chunkCount_pos value.length fragSize).ne'
  obtain ⟨a, reserved, hoffer, hfilled⟩ := offerParts_filled (n := n) lastFlags base now hroom hparts
    (by omega)
  have hcomplete : a.complete := by
    unfold FragmentAssembly.complete
    simp only [hfilled.holds.active, Bool.true_and, Bool.and_eq_true, bne_iff_ne, ne_eq,
      List.all_eq_true, List.mem_range, hfilled.received, decide_eq_true_eq]
    refine ⟨fun hzero => ?_, fun i hi => ?_⟩
    · have hpos := chunkCount_pos value.length fragSize
      rw [← hfilled.holds.count, hzero] at hpos
      exact Nat.lt_irrefl 0 hpos
    · rw [hfilled.holds.count] at hi
      omega
  refine ⟨a, ?_, hcomplete, hfilled.holds.assemble hcomplete hroom.pos⟩
  rw [hn, hoffer]

end

end EspTree
