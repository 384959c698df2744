import EspTree.Assembly
import EspTree.Lib.Overlay
import Mathlib.Data.List.Pairwise

/-!
# Fragments of any length

A buffer has a slot for each fragment of its message, and `store_fragment_` checks only that a
fragment does not run past the end of the whole buffer.  A fragment that is longer than a slot goes
over into the next one.

`feed` is a buffer that takes any fragments of one message, with the receipts that it shows.  Its
data are the values of these fragments written over each other in the order of their arrival, so it
assembles to their concatenation if and only if they agree wherever they overlap.
-/

namespace EspTree

open Wire

namespace EntityPayload

/-- A fragment that comes in a frame of either MTU and that `parse_entity_payload` takes. -/
def Admitted (view : EntityPayload) : Prop :=
  ∃ plaintext, plaintext.length ≤ maxPlaintext v2MaxPayload ∧ parse plaintext = some view

/-- A fragment that the handlers let through has its place in its message. -/
theorem Admitted.index_lt {view : EntityPayload} (h : view.Admitted) :
    view.fragmentIndex.toNat < view.fragmentCount.toNat := by
  obtain ⟨plaintext, -, hparse⟩ := h
  exact UInt8.lt_iff_toNat_lt.mp (parse_eq_some hparse)

/-- Its length fits the `uint16_t` that it is kept in. -/
theorem Admitted.length_mod {view : EntityPayload} (h : view.Admitted) :
    view.value.length % 2 ^ 16 = view.value.length := by
  obtain ⟨plaintext, hlen, hparse⟩ := h
  have hvalue : view.value = plaintext.drop entityPacketHeaderLen := by
    unfold parse at hparse
    split_ifs at hparse
    rw [← Option.some.inj hparse]
  rw [hvalue, List.length_drop]
  change plaintext.length ≤ 1445 at hlen
  omega

/-- Where the bytes of a fragment are put. -/
def piece (slot : Nat) (view : EntityPayload) : Piece :=
  ⟨view.fragmentIndex.toNat * slot, view.value⟩

/-- The fragment belongs to a message of `count` fragments, and its bytes end in the buffer. -/
def Fits (slot : Nat) (count : UInt8) (view : EntityPayload) : Prop :=
  view.fragmentCount = count ∧ (view.piece slot).Within (count.toNat * slot)

instance (slot : Nat) (count : UInt8) (view : EntityPayload) : Decidable (view.Fits slot count) :=
  inferInstanceAs (Decidable (_ ∧ _ ≤ _))

end EntityPayload

namespace FragmentAssembly

/-! ## Feeding a buffer -/

section

variable (lastFlags : Bool) (slot maxAssembly : Nat) (base : UInt32)

/-- A fragment arrives at some time.  It is written down if the buffer shows its receipt and did not
show it before. -/
def receive (s : FragmentAssembly × List EntityPayload) (arrival : EntityPayload × UInt32) :
    FragmentAssembly × List EntityPayload :=
  let a := (s.1.storeFragment lastFlags arrival.1 base arrival.2 slot maxAssembly).1
  let i := arrival.1.fragmentIndex.toNat
  (a, if a.received.getD i false && !s.1.received.getD i false then s.2 ++ [arrival.1] else s.2)

/-- A new buffer after any fragments, with those that it shows the receipt of. -/
def feed (arrivals : List (EntityPayload × UInt32)) : FragmentAssembly × List EntityPayload :=
  arrivals.foldl (receive lastFlags slot maxAssembly base) ({}, [])

/-- A buffer is fed one fragment after the other. -/
theorem feed_append (arrivals : List (EntityPayload × UInt32)) (arrival : EntityPayload × UInt32) :
    feed lastFlags slot maxAssembly base (arrivals ++ [arrival]) =
      receive lastFlags slot maxAssembly base (feed lastFlags slot maxAssembly base arrivals) arrival := by
  rw [feed, List.foldl_append]
  rfl

end

/-- The values of fragments, in the order of their indices. -/
def concat (count : UInt8) (views : List EntityPayload) : Bytes :=
  (List.range count.toNat).flatMap fun i =>
    (views.filter fun v => v.fragmentIndex.toNat == i).flatMap (·.value)

/-! ## Which fragments are taken -/

/-- The number of fragments of the message: that of the first fragment that there is room for. -/
def messageCount? (slot maxAssembly : Nat) (views : List EntityPayload) : Option UInt8 :=
  (views.find? fun v => decide (v.fragmentCount.toNat * slot ≤ maxAssembly)).map (·.fragmentCount)

/-- The fragments that fit, each the first one of its index. -/
def firsts (slot : Nat) (count : UInt8) (views : List EntityPayload) : List EntityPayload :=
  views.foldl (fun taken v =>
    if v.Fits slot count ∧ ∀ u ∈ taken, u.fragmentIndex ≠ v.fragmentIndex then taken ++ [v]
    else taken) []

/-- What is taken of some fragments of a message, as far as their counts, places and lengths tell. -/
def taken (slot maxAssembly : Nat) (views : List EntityPayload) : List EntityPayload :=
  ((messageCount? slot maxAssembly views).map fun count => firsts slot count views).getD []

section

variable {lastFlags : Bool} {slot maxAssembly : Nat} {base now : UInt32} {count : UInt8}
  {views receipts : List EntityPayload} {view : EntityPayload} {a d : FragmentAssembly}

/-- The first fragment of an index is kept, and later ones of the same index are not. -/
theorem firsts_append (slot : Nat) (count : UInt8) (views : List EntityPayload)
    (view : EntityPayload) :
    firsts slot count (views ++ [view]) =
      if view.Fits slot count ∧
          ∀ u ∈ firsts slot count views, u.fragmentIndex ≠ view.fragmentIndex then
        firsts slot count views ++ [view]
      else firsts slot count views := by
  rw [firsts, List.foldl_append]
  rfl

/-- Fragments that do not fit are not taken. -/
theorem firsts_eq_nil (h : ∀ v ∈ views, ¬ v.Fits slot count) : firsts slot count views = [] := by
  induction views using List.reverseRecOn with
  | nil => rfl
  | append_singleton views v ih =>
    have hlast := h v (List.mem_append_right _ (List.mem_singleton_self v))
    rw [firsts_append, if_neg fun hfits => hlast hfits.1]
    exact ih fun u hu => h u (List.mem_append_left _ hu)

/-! ## What a buffer has written -/

/-- An open buffer for the message with these receipts, in the order in which they came. -/
structure Written (slot : Nat) (base : UInt32) (count : UInt8) (a : FragmentAssembly)
    (receipts : List EntityPayload) : Prop where
  active : a.active
  base : a.messageTxBase = base
  fragments : a.fragmentCount = count
  data : a.data = overlay (List.replicate (count.toNat * slot) 0)
    (receipts.map (EntityPayload.piece slot))
  room : a.lengths.length = count.toNat
  marks : a.received.length = count.toNat
  received : ∀ i, a.received.getD i false = receipts.any fun v => v.fragmentIndex.toNat == i
  lengths : ∀ v ∈ receipts, a.lengths.getD v.fragmentIndex.toNat 0 = v.value.length
  fits : ∀ v ∈ receipts, v.Fits slot count
  once : receipts.Pairwise fun u v => u.fragmentIndex ≠ v.fragmentIndex

/-- No fragment is written beyond the end of the buffer. -/
theorem Written.within (h : a.Written slot base count receipts) :
    ∀ w ∈ receipts.map (EntityPayload.piece slot),
      w.Within (List.replicate (count.toNat * slot) (0 : UInt8)).length := by
  intro w hw
  obtain ⟨v, hv, rfl⟩ := List.mem_map.mp hw
  rw [List.length_replicate]
  exact (h.fits v hv).2

theorem Written.length_data (h : a.Written slot base count receipts) :
    a.data.length = count.toNat * slot := by
  rw [h.data, length_overlay h.within, List.length_replicate]

/-- The flags do not matter. -/
theorem Written.takeLastFlags (h : a.Written slot base count receipts) (view : EntityPayload) :
    (a.takeLastFlags view).Written slot base count receipts := by
  unfold FragmentAssembly.takeLastFlags
  split
  · exact ⟨h.active, h.base, h.fragments, h.data, h.room, h.marks, h.received, h.lengths, h.fits, h.once⟩
  · exact h

/-- A fragment without a receipt is put on top of the others. -/
theorem Written.put (h : a.Written slot base count receipts) (hview : view.Admitted)
    (hfits : view.Fits slot count) (hnew : ∀ u ∈ receipts, u.fragmentIndex ≠ view.fragmentIndex) :
    (a.put view slot).Written slot base count (receipts ++ [view]) := by
  have hlt : view.fragmentIndex.toNat < count.toNat := by
    rw [← hfits.1]
    exact hview.index_lt
  refine ⟨h.active, h.base, h.fragments, ?_, ?_, ?_, ?_, ?_, ?_, ?_⟩
  · change overwrite a.data _ _ = _
    rw [h.data, List.map_append, List.map_singleton, overlay_append]
    rfl
  · exact (List.length_set ..).trans h.room
  · exact (List.length_set ..).trans h.marks
  · intro i
    change (a.received.set view.fragmentIndex.toNat true).getD i false = _
    rw [List.any_append, ← h.received i, List.getD_eq_getElem?_getD]
    by_cases hsame : view.fragmentIndex.toNat = i
    · subst hsame
      rw [List.getElem?_set_self (by rw [h.marks]; exact hlt)]
      simp
    · rw [List.getElem?_set_ne hsame, ← List.getD_eq_getElem?_getD]
      simp [hsame]
  · intro v hv
    change (a.lengths.set view.fragmentIndex.toNat (view.value.length % 2 ^ 16)).getD _ 0 = _
    rw [hview.length_mod, List.getD_eq_getElem?_getD]
    rcases List.mem_append.mp hv with hv | hv
    · have hne : view.fragmentIndex.toNat ≠ v.fragmentIndex.toNat :=
        fun heq => hnew v hv (UInt8.toNat_inj.mp heq.symm)
      rw [List.getElem?_set_ne hne, ← List.getD_eq_getElem?_getD]
      exact h.lengths v hv
    · rw [List.mem_singleton.mp hv, List.getElem?_set_self (by rw [h.room]; exact hlt)]
      rfl
  · intro v hv
    rcases List.mem_append.mp hv with hv | hv
    · exact h.fits v hv
    · rw [List.mem_singleton.mp hv]
      exact hfits
  · apply List.pairwise_append.mpr
    refine ⟨h.once, List.pairwise_singleton _ _, ?_⟩
    intro u hu v hv
    rw [List.mem_singleton.mp hv]
    exact hnew u hu

/-- A fragment that is offered to an open buffer of its message is taken if it fits and is the first
one of its index. -/
theorem Written.store (lastFlags : Bool) (h : d.Written slot base count receipts) (hview : view.Admitted)
    (hcount : view.fragmentCount = count)
    (hopen : a.openFor view base now slot maxAssembly = some d) :
    (a.storeFragment lastFlags view base now slot maxAssembly).1.Written slot base count
      (if view.Fits slot count ∧ ∀ u ∈ receipts, u.fragmentIndex ≠ view.fragmentIndex then
        receipts ++ [view]
      else receipts) := by
  unfold storeFragment
  rw [hopen]
  have hwritten : (if lastFlags then d.takeLastFlags view else d).Written slot base count receipts := by
    split
    · exact h.takeLastFlags view
    · exact h
  dsimp only
  generalize (if lastFlags then d.takeLastFlags view else d) = d' at hwritten
  by_cases hseen : d'.received.getD view.fragmentIndex.toNat false
  · -- a duplicate
    have hold : ¬ ∀ u ∈ receipts, u.fragmentIndex ≠ view.fragmentIndex := by
      rw [hwritten.received] at hseen
      obtain ⟨u, hu, heq⟩ := List.any_eq_true.mp hseen
      exact fun hall => hall u hu (UInt8.toNat_inj.mp (beq_iff_eq.mp heq))
    rw [if_pos hseen, if_neg fun hnew => hold hnew.2]
    exact hwritten
  · rw [if_neg hseen]
    by_cases hlong : d'.data.length < view.fragmentIndex.toNat * slot + view.value.length
    · -- it runs past the end of the buffer
      have hnot : ¬ view.Fits slot count := by
        intro hfits
        rw [hwritten.length_data] at hlong
        exact absurd hfits.2 (Nat.not_le.mpr hlong)
      rw [if_pos hlong, if_neg fun hfits => hnot hfits.1]
      exact hwritten
    · have hfits : view.Fits slot count := by
        refine ⟨hcount, ?_⟩
        rw [hwritten.length_data] at hlong
        exact Nat.not_lt.mp hlong
      have hnew : ∀ u ∈ receipts, u.fragmentIndex ≠ view.fragmentIndex := by
        intro u hu heq
        rw [hwritten.received] at hseen
        exact hseen (List.any_eq_true.mpr ⟨u, hu, by rw [heq]; exact beq_self_eq_true _⟩)
      rw [if_neg hlong, if_pos ⟨hfits, hnew⟩]
      exact hwritten.put hview hfits hnew

/-- What is written down of it. -/
theorem Written.receive (h : d.Written slot base count receipts) (hview : view.Admitted)
    (hcount : view.fragmentCount = count)
    (hopen : a.openFor view base now slot maxAssembly = some d)
    (hbefore : a.received.getD view.fragmentIndex.toNat false =
      d.received.getD view.fragmentIndex.toNat false) :
    (receive lastFlags slot maxAssembly base (a, receipts) (view, now)).2 =
      if view.Fits slot count ∧ ∀ u ∈ receipts, u.fragmentIndex ≠ view.fragmentIndex then
        receipts ++ [view]
      else receipts := by
  have hstore := h.store lastFlags hview hcount hopen
  dsimp only [FragmentAssembly.receive]
  rw [hstore.received, hbefore, h.received]
  by_cases htaken : view.Fits slot count ∧ ∀ u ∈ receipts, u.fragmentIndex ≠ view.fragmentIndex
  · have hold : (receipts.any fun v => v.fragmentIndex.toNat == view.fragmentIndex.toNat) = false := by
      rw [List.any_eq_false]
      intro u hu heq
      exact htaken.2 u hu (UInt8.toNat_inj.mp (beq_iff_eq.mp heq))
    rw [if_pos htaken, hold, List.any_append]
    simp
  · rw [if_neg htaken]
    simp

/-- A new buffer shows no receipt. -/
theorem openFor_written (hopen : ({} : FragmentAssembly).openFor view base now slot maxAssembly = some d) :
    view.fragmentCount.toNat * slot ≤ maxAssembly ∧ d.Written slot base view.fragmentCount [] := by
  unfold openFor at hopen
  rw [if_neg (by exact Bool.false_ne_true)] at hopen
  dsimp only at hopen
  split at hopen
  · cases hopen
  next hroom =>
    cases hopen
    refine ⟨Nat.not_lt.mp hroom, rfl, rfl, rfl, rfl, List.length_replicate, List.length_replicate,
      ?_, nofun, nofun, .nil⟩
    intro i
    rw [List.getD_eq_getElem?_getD, List.getElem?_replicate]
    split <;> rfl

/-! ## Runs -/

/-- The message gets its number of fragments from the first one that there is room for. -/
theorem messageCount?_append (slot maxAssembly : Nat) (views : List EntityPayload)
    (view : EntityPayload) :
    messageCount? slot maxAssembly (views ++ [view]) =
      (messageCount? slot maxAssembly views).or
        (if view.fragmentCount.toNat * slot ≤ maxAssembly then some view.fragmentCount else none) := by
  unfold messageCount?
  rw [List.find?_append, Option.map_or, List.find?_singleton]
  by_cases hroom : view.fragmentCount.toNat * slot ≤ maxAssembly <;> simp [hroom]

/-- There is no room for the message of a fragment that came before. -/
theorem not_fits_of_messageCount?_none (h : messageCount? slot maxAssembly views = none)
    (hroom : count.toNat * slot ≤ maxAssembly) : ∀ v ∈ views, ¬ v.Fits slot count := by
  intro v hv hfits
  unfold messageCount? at h
  rw [Option.map_eq_none_iff, List.find?_eq_none] at h
  refine h v hv (decide_eq_true ?_)
  rw [hfits.1]
  exact hroom

/-- A fragment that belongs to no open message changes nothing. -/
theorem receive_of_refused (lastFlags : Bool) (receipts : List EntityPayload)
    (h : a.openFor view base now slot maxAssembly = none) :
    receive lastFlags slot maxAssembly base (a, receipts) (view, now) = (a, receipts) := by
  dsimp only [receive]
  unfold storeFragment
  rw [h]
  simp

/-- An unused buffer is refused for want of room only. -/
theorem full_of_refused (h : ({} : FragmentAssembly).openFor view base now slot maxAssembly = none) :
    ¬ view.fragmentCount.toNat * slot ≤ maxAssembly := by
  unfold openFor at h
  rw [if_neg (by exact Bool.false_ne_true)] at h
  dsimp only at h
  split at h
  next hlt => exact Nat.not_le.mpr hlt
  · cases h

/-- A buffer in use takes the fragments of a message of its number of fragments. -/
theorem Written.openFor_eq (h : a.Written slot base count receipts) (view : EntityPayload) (now : UInt32)
    (maxAssembly : Nat) :
    a.openFor view base now slot maxAssembly =
      if view.fragmentCount = count then some { a with lastSeenMs := now } else none := by
  unfold openFor
  rw [if_pos h.active, h.base, h.fragments]
  by_cases hcount : view.fragmentCount = count
  · rw [if_neg (by simp [hcount]), if_pos hcount]
  · rw [if_pos (.inr (Ne.symm hcount)), if_neg hcount]

theorem Written.touched (h : a.Written slot base count receipts) (now : UInt32) :
    ({ a with lastSeenMs := now } : FragmentAssembly).Written slot base count receipts :=
  ⟨h.active, h.base, h.fragments, h.data, h.room, h.marks, h.received, h.lengths, h.fits, h.once⟩

/-- A new buffer after any fragments: as long as there was room for none of them it is empty, and then
it has written the fragments that it takes. -/
theorem feed_written (lastFlags : Bool) (base : UInt32) (arrivals : List (EntityPayload × UInt32))
    (hadmitted : ∀ p ∈ arrivals, p.1.Admitted) :
    messageCount? slot maxAssembly (arrivals.map (·.1)) = none ∧
        feed lastFlags slot maxAssembly base arrivals = ({}, []) ∨
      ∃ count a, messageCount? slot maxAssembly (arrivals.map (·.1)) = some count ∧
        count.toNat * slot ≤ maxAssembly ∧
        feed lastFlags slot maxAssembly base arrivals =
          (a, firsts slot count (arrivals.map (·.1))) ∧
        a.Written slot base count (firsts slot count (arrivals.map (·.1))) := by
  induction arrivals using List.reverseRecOn with
  | nil => exact .inl ⟨rfl, rfl⟩
  | append_singleton arrivals arrival ih =>
    obtain ⟨view, now⟩ := arrival
    have hview : view.Admitted := hadmitted _ (List.mem_append_right _ (List.mem_singleton_self _))
    rw [feed_append, List.map_append, List.map_singleton, messageCount?_append]
    obtain ⟨hnone, hfeed⟩ | ⟨count, a, hsome, hroom, hfeed, hwritten⟩ :=
      ih fun p hp => hadmitted p (List.mem_append_left _ hp)
    · rw [hnone, hfeed, Option.none_or]
      cases hopen : ({} : FragmentAssembly).openFor view base now slot maxAssembly with
      | none =>
        -- there is no room for this one either
        exact .inl ⟨if_neg (full_of_refused hopen), receive_of_refused lastFlags [] hopen⟩
      | some d =>
        obtain ⟨hroom, hwritten⟩ := openFor_written hopen
        have hnil : firsts slot view.fragmentCount (arrivals.map (·.1)) = [] :=
          firsts_eq_nil (not_fits_of_messageCount?_none hnone hroom)
        have hbefore : ({} : FragmentAssembly).received.getD view.fragmentIndex.toNat false =
            d.received.getD view.fragmentIndex.toNat false := by
          rw [hwritten.received]
          rfl
        refine .inr ⟨view.fragmentCount, _, if_pos hroom, hroom, Prod.ext rfl ?_, ?_⟩
        · rw [firsts_append, hnil]
          exact hwritten.receive hview rfl hopen hbefore
        · rw [firsts_append, hnil]
          exact hwritten.store lastFlags hview rfl hopen
    · rw [hsome, hfeed, Option.some_or]
      by_cases hcount : view.fragmentCount = count
      · have hopen : a.openFor view base now slot maxAssembly = some { a with lastSeenMs := now } := by
          rw [hwritten.openFor_eq, if_pos hcount]
        refine .inr ⟨count, _, rfl, hroom, Prod.ext rfl ?_, ?_⟩
        · rw [firsts_append]
          exact (hwritten.touched now).receive hview hcount hopen rfl
        · rw [firsts_append]
          exact (hwritten.touched now).store lastFlags hview hcount hopen
      · -- the fragment belongs to a message of another number of fragments
        have hopen : a.openFor view base now slot maxAssembly = none := by
          rw [hwritten.openFor_eq, if_neg hcount]
        have hsame : firsts slot count (arrivals.map (·.1) ++ [view]) =
            firsts slot count (arrivals.map (·.1)) := by
          rw [firsts_append, if_neg fun hfits => hcount hfits.1.1]
        refine .inr ⟨count, a, rfl, hroom, ?_, ?_⟩
        · rw [hsame]
          exact receive_of_refused lastFlags _ hopen
        · rw [hsame]
          exact hwritten

/-- An open buffer that is complete has the receipt of one fragment for each index. -/
theorem Written.unique (h : a.Written slot base count receipts) (hcomplete : a.complete) {i : Nat}
    (hi : i < count.toNat) :
    ∃ v ∈ receipts, v.fragmentIndex.toNat = i ∧
      receipts.filter (fun v => v.fragmentIndex.toNat == i) = [v] := by
  unfold complete at hcomplete
  simp only [Bool.and_eq_true, List.all_eq_true, List.mem_range, h.fragments, h.received,
    List.any_eq_true, beq_iff_eq] at hcomplete
  obtain ⟨v, hv, hindex⟩ := hcomplete.2 i hi
  obtain ⟨l₁, l₂, rfl⟩ := List.append_of_mem hv
  have hother : ∀ u : EntityPayload, u.fragmentIndex ≠ v.fragmentIndex → ¬ (u.fragmentIndex.toNat == i) = true := by
    intro u hne heq
    rw [← hindex] at heq
    exact hne (UInt8.toNat_inj.mp (beq_iff_eq.mp heq))
  have honce := h.once
  rw [List.pairwise_append, List.pairwise_cons] at honce
  obtain ⟨-, ⟨hafter, -⟩, hbefore⟩ := honce
  refine ⟨v, hv, hindex, ?_⟩
  rw [List.filter_append, List.filter_cons_of_pos (by rw [hindex]; exact beq_self_eq_true i),
    List.filter_eq_nil_iff.mpr fun u hu => hother u (hbefore u hu v List.mem_cons_self),
    List.filter_eq_nil_iff.mpr fun u hu => hother u (hafter u hu).symm, List.nil_append]

/-- A complete buffer assembles to the concatenation of its receipts if and only if these agree
wherever they overlap. -/
theorem Written.assemble_iff (h : a.Written slot base count receipts) (hcomplete : a.complete) :
    a.assemble slot = concat count receipts ↔
      ∀ v ∈ receipts, ∀ w ∈ receipts, (v.piece slot).Agrees (w.piece slot) := by
  have hpart : ∀ v ∈ receipts, slice a.data (v.fragmentIndex.toNat * slot)
      (a.lengths.getD v.fragmentIndex.toNat 0) =
        slice a.data (v.piece slot).off (v.piece slot).bytes.length := by
    intro v hv
    rw [h.lengths v hv]
    rfl
  have hlength : ∀ i < count.toNat, (slice a.data (i * slot) (a.lengths.getD i 0)).length =
      ((receipts.filter fun v => v.fragmentIndex.toNat == i).flatMap (·.value)).length := by
    intro i hi
    obtain ⟨v, hv, rfl, hfilter⟩ := h.unique hcomplete hi
    have hwithin : v.fragmentIndex.toNat * slot + v.value.length ≤ a.data.length := by
      rw [h.length_data]
      exact (h.fits v hv).2
    rw [hfilter, List.flatMap_singleton, h.lengths v hv, slice, List.length_take, List.length_drop]
    omega
  have hread : (∀ i < count.toNat, slice a.data (i * slot) (a.lengths.getD i 0) =
        (receipts.filter fun v => v.fragmentIndex.toNat == i).flatMap (·.value)) ↔
      ∀ w ∈ receipts.map (EntityPayload.piece slot), slice a.data w.off w.bytes.length = w.bytes := by
    constructor
    · intro hall w hw
      obtain ⟨v, hv, rfl⟩ := List.mem_map.mp hw
      have hlt : v.fragmentIndex.toNat < count.toNat := by
        by_contra hge
        have hshown : a.received.getD v.fragmentIndex.toNat false := by
          rw [h.received]
          exact List.any_eq_true.mpr ⟨v, hv, beq_self_eq_true _⟩
        rw [List.getD_eq_getElem?_getD, List.getElem?_eq_none (by rw [h.marks]; omega)] at hshown
        cases hshown
      obtain ⟨u, hu, hindex, hfilter⟩ := h.unique hcomplete hlt
      have hsame : v = u := by
        have hmem : v ∈ receipts.filter fun w => w.fragmentIndex.toNat == v.fragmentIndex.toNat :=
          List.mem_filter.mpr ⟨hv, beq_self_eq_true _⟩
        rw [hfilter] at hmem
        exact List.mem_singleton.mp hmem
      have hslice := hall _ hlt
      rw [hfilter, List.flatMap_singleton, hpart v hv, ← hsame] at hslice
      exact hslice
    · intro hall i hi
      obtain ⟨v, hv, rfl, hfilter⟩ := h.unique hcomplete hi
      rw [hfilter, List.flatMap_singleton, hpart v hv]
      exact hall _ (List.mem_map_of_mem hv)
  unfold assemble concat
  rw [h.fragments, flatMap_range_eq_iff hlength, hread, h.data, slices_overlay_iff h.within]
  constructor
  · intro hall v hv w hw
    exact hall _ (List.mem_map_of_mem hv) _ (List.mem_map_of_mem hw)
  · intro hall p hp q hq
    obtain ⟨v, hv, rfl⟩ := List.mem_map.mp hp
    obtain ⟨w, hw, rfl⟩ := List.mem_map.mp hq
    exact hall v hv w hw

/-- What is kept has come in and fits, and no two of it have one index. -/
theorem firsts_fits (slot : Nat) (count : UInt8) (views : List EntityPayload) :
    (∀ v ∈ firsts slot count views, v ∈ views ∧ v.Fits slot count) ∧
      (firsts slot count views).Pairwise fun u v => u.fragmentIndex ≠ v.fragmentIndex := by
  induction views using List.reverseRecOn with
  | nil => exact ⟨nofun, .nil⟩
  | append_singleton views v ih =>
    obtain ⟨hmem, honce⟩ := ih
    rw [firsts_append]
    split
    next htaken =>
      constructor
      · intro u hu
        rcases List.mem_append.mp hu with hu | hu
        · exact ⟨List.mem_append_left _ (hmem u hu).1, (hmem u hu).2⟩
        · rw [List.mem_singleton.mp hu]
          exact ⟨List.mem_append_right _ (List.mem_singleton_self v), htaken.1⟩
      · apply List.pairwise_append.mpr
        refine ⟨honce, List.pairwise_singleton _ _, fun u hu w hw => ?_⟩
        rw [List.mem_singleton.mp hw]
        exact htaken.2 u hu
    · exact ⟨fun u hu => ⟨List.mem_append_left _ (hmem u hu).1, (hmem u hu).2⟩, honce⟩

/-- Fragments of which none but the last is longer than a slot do not leave their slots, so they
agree. -/
theorem firsts_agree (hadmitted : ∀ v ∈ views, v.Admitted)
    (hshort : ∀ v ∈ views, v.fragmentIndex.toNat + 1 < v.fragmentCount.toNat → v.value.length ≤ slot) :
    ∀ v ∈ firsts slot count views, ∀ w ∈ firsts slot count views,
      (v.piece slot).Agrees (w.piece slot) := by
  obtain ⟨hmem, honce⟩ := firsts_fits slot count views
  have hend : ∀ v ∈ firsts slot count views,
      (v.piece slot).off + v.value.length ≤ (v.fragmentIndex.toNat + 1) * slot := by
    intro v hv
    obtain ⟨hv, hcount, hwithin⟩ := hmem v hv
    have hlt := (hadmitted v hv).index_lt
    rcases Nat.lt_or_ge (v.fragmentIndex.toNat + 1) v.fragmentCount.toNat with hinner | hlast
    · rw [Nat.succ_mul]
      exact Nat.add_le_add_left (hshort v hv hinner) _
    · -- the buffer ends with the slot of the last fragment
      have hsucc : v.fragmentIndex.toNat + 1 = count.toNat := by
        rw [← hcount]
        omega
      rw [hsucc]
      exact hwithin
  intro v hv w hw
  rcases Nat.lt_trichotomy v.fragmentIndex.toNat w.fragmentIndex.toNat with hlt | heq | hgt
  · exact .of_disjoint (.inl ((hend v hv).trans (Nat.mul_le_mul_right slot hlt)))
  · have hsame : v = w := by
      by_contra hne
      have : Std.Symm fun u v : EntityPayload => u.fragmentIndex ≠ v.fragmentIndex :=
        ⟨fun _ _ h => h.symm⟩
      exact honce.forall hv hw hne (UInt8.toNat_inj.mp heq)
    rw [hsame]
    exact fun p _ _ => rfl
  · exact .of_disjoint (.inr ((hend w hw).trans (Nat.mul_le_mul_right slot hgt)))

end

/-! ## What a complete buffer assembles to -/

/-- Whatever fragments come in for one message, in any order: once the buffer is complete, it
assembles to the concatenation of the fragments that it shows the receipt of if and only if the
fragments that are taken have the same bytes wherever their places overlap. -/
theorem assemble_feed_iff (lastFlags : Bool) (slot maxAssembly : Nat) (base : UInt32)
    (arrivals : List (EntityPayload × UInt32)) (hadmitted : ∀ p ∈ arrivals, p.1.Admitted)
    (hcomplete : (feed lastFlags slot maxAssembly base arrivals).1.complete) :
    (feed lastFlags slot maxAssembly base arrivals).1.assemble slot =
        concat (feed lastFlags slot maxAssembly base arrivals).1.fragmentCount
          (feed lastFlags slot maxAssembly base arrivals).2 ↔
      ∀ v ∈ taken slot maxAssembly (arrivals.map (·.1)),
        ∀ w ∈ taken slot maxAssembly (arrivals.map (·.1)), (v.piece slot).Agrees (w.piece slot) := by
  obtain ⟨-, hfeed⟩ | ⟨count, a, hsome, -, hfeed, hwritten⟩ :=
    feed_written lastFlags base arrivals hadmitted
  · rw [hfeed] at hcomplete
    cases hcomplete
  · have htaken : taken slot maxAssembly (arrivals.map (·.1)) =
        firsts slot count (arrivals.map (·.1)) := by
      unfold taken
      rw [hsome]
      rfl
    rw [hfeed] at hcomplete ⊢
    rw [htaken, hwritten.fragments]
    exact hwritten.assemble_iff hcomplete

/-- The first of two fragments, from a peer with longer fragments. -/
def longFirst : EntityPayload := ⟨7, 0, 0, 2, List.replicate 300 1⟩

/-- The second one. -/
def shortLast : EntityPayload := ⟨7, 0, 1, 2, List.replicate 10 2⟩

theorem admitted_samples : longFirst.Admitted ∧ shortLast.Admitted :=
  ⟨⟨longFirst.bytes, by decide +kernel, EntityPayload.parse_bytes (by decide)⟩,
    ⟨shortLast.bytes, by decide +kernel, EntityPayload.parse_bytes (by decide)⟩⟩

/-- Both are taken and shown, and the second one is written over the end of the first. -/
theorem assemble_longFirst :
    let buffer := feed true ({} : FragmentLimits).maxEntityFragment
      ({} : FragmentLimits).maxAssemblyBytes 41 [(longFirst, 1000), (shortLast, 1010)]
    longFirst.Admitted ∧ shortLast.Admitted ∧ buffer.1.complete ∧ buffer.2 = [longFirst, shortLast] ∧
      buffer.1.assemble ({} : FragmentLimits).maxEntityFragment ≠
        concat buffer.1.fragmentCount buffer.2 :=
  ⟨admitted_samples.1, admitted_samples.2, by decide +kernel, by decide +kernel, by decide +kernel⟩

/-- In the other order the first one is written over the second. -/
theorem assemble_feed_iff_shortLast :
    let arrivals := [(shortLast, 1000), (longFirst, 1010)]
    (feed true 220 1024 41 arrivals).1.assemble 220 =
        concat (feed true 220 1024 41 arrivals).1.fragmentCount (feed true 220 1024 41 arrivals).2 ↔
      ∀ v ∈ taken 220 1024 (arrivals.map (·.1)), ∀ w ∈ taken 220 1024 (arrivals.map (·.1)),
        (v.piece 220).Agrees (w.piece 220) :=
  assemble_feed_iff true 220 1024 41 [(shortLast, 1000), (longFirst, 1010)]
    (by
      intro p hp
      rcases List.mem_cons.mp hp with rfl | hp
      · exact admitted_samples.2
      · rw [List.mem_singleton.mp hp]
        exact admitted_samples.1)
    (by decide +kernel)

end FragmentAssembly

end EspTree
