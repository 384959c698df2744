import EspTree.Bridge.Moves
import EspTree.Reassembly
import EspTree.Remote.Moves

/-!
# Splitting a value and putting it together

`send_state_` and `send_command_fragments_` cut a value into fragments under consecutive counters, and
the receiver finds out which message a fragment belongs to by subtracting its index from its counter.

`sendStateFragments_splits` and `sendCommandLoop_splits` say what the two loops encrypt, and
`RoundTrips` what a buffer makes of it, in any order and with any repetitions.

The buffer of the receiver is keyed by the entity alone, so fragments of two messages meet in it.
`readable` are the messages whose fragments have all arrived one way or another, and `RoundTrips`
says that what the buffer gives out is the value that the sender has cut, and that it gives it out
once all fragments are there.

`Splitting.roundTrip` is about whatever the two loops encrypt, `Splitting.roundTrip_senders` about a
sender whose frames are all sent.  The limits of the two ends come from their negotiation and may
differ by the extension of the header, which is smaller than the slack of a slot
(`FragmentLimits.Negotiated.sizes`).
-/

namespace EspTree

open Wire

/-- A fragment that has come in: its counter, its plaintext and the time. -/
structure Arrival where
  counter : UInt32
  plaintext : Bytes
  now : UInt32
  deriving DecidableEq

/-- It is fragment number `n` of the message. -/
def Arrival.HasIndex (a : Arrival) (n : Nat) : Prop :=
  ∃ view, EntityPayload.parse a.plaintext = some view ∧ view.fragmentIndex.toNat = n

/-- The plaintext under `counter` is fragment number `n` of `value`, in a message that starts with the
counter `base`. -/
def IsFragmentAt (base : UInt32) (value : Bytes) (size n : Nat) (counter : UInt32) (plaintext : Bytes) :
    Prop :=
  counter = base + UInt32.ofNat n ∧ ∃ index flags, plaintext = EntityPayload.bytes
    ⟨index, flags, UInt8.ofNat n, UInt8.ofNat (chunkCount value.length size),
      slice value (n * size) size⟩

/-- What the receiver reads in it. -/
theorem IsFragmentAt.view {base : UInt32} {value : Bytes} {size n : Nat} {counter : UInt32}
    {plaintext : Bytes} (h : IsFragmentAt base value size n counter plaintext)
    (hn : n < chunkCount value.length size) (hcount : chunkCount value.length size < 2 ^ 8) :
    ∃ view, EntityPayload.parse plaintext = some view ∧ view.fragmentIndex.toNat = n ∧
      IsPart view value size ∧ fragmentMessageTxBase counter view = base := by
  obtain ⟨rfl, index, flags, rfl⟩ := h
  have hindex : (UInt8.ofNat n).toNat = n := UInt8.toNat_ofNat_of_lt' (Nat.lt_trans hn hcount)
  have hlt : UInt8.ofNat n < UInt8.ofNat (chunkCount value.length size) := by
    rw [UInt8.lt_iff_toNat_lt, hindex, UInt8.toNat_ofNat_of_lt' hcount]
    exact hn
  refine ⟨_, EntityPayload.parse_bytes hlt, hindex, isPart_of_lt _ _ hn hcount, ?_⟩
  change base + UInt32.ofNat n - UInt32.ofNat (UInt8.ofNat n).toNat = base
  rw [hindex, UInt32.add_sub_cancel]

/-- It is no longer than the buffers are made for. -/
theorem IsFragmentAt.admitted {base : UInt32} {value : Bytes} {size n : Nat} {counter : UInt32}
    {plaintext : Bytes} {view : EntityPayload} (h : IsFragmentAt base value size n counter plaintext)
    (hmax : size ≤ maxEntityFragment v2MaxPayload) (hparse : EntityPayload.parse plaintext = some view) :
    view.Admitted := by
  refine ⟨plaintext, ?_, hparse⟩
  obtain ⟨-, index, flags, hbytes⟩ := h
  rw [hbytes, EntityPayload.length_bytes]
  have hlen : (slice value (n * size) size).length ≤ size := by
    rw [slice, List.length_take]
    exact Nat.min_le_left _ _
  change size ≤ 1440 at hmax
  change 5 + (slice value (n * size) size).length ≤ 1445
  omega

/-- A part of the value fits into a buffer for as many parts. -/
theorem IsPart.fits {view : EntityPayload} {value : Bytes} {size : Nat} (h : IsPart view value size)
    {count : UInt8} (hcount : count.toNat = chunkCount value.length size) : view.Fits size count := by
  refine ⟨UInt8.toNat_inj.mp (h.count.trans hcount.symm), ?_⟩
  have hlen := h.length_le
  have hmul := Nat.mul_le_mul_right size (Nat.succ_le_of_lt h.index)
  rw [Nat.succ_mul] at hmul
  change view.fragmentIndex.toNat * size + view.value.length ≤ count.toNat * size
  rw [hcount]
  omega

/-! ## The receiver -/

namespace FragmentAssembly

section

variable (lastFlags : Bool) (limits : FragmentLimits)

/-- A fragment of the message is read and offered to its buffer. -/
def absorb (a : FragmentAssembly) (arrival : Arrival) : FragmentAssembly :=
  match EntityPayload.parse arrival.plaintext with
  | none => a
  | some view => (a.storeFragment lastFlags view (fragmentMessageTxBase arrival.counter view)
      arrival.now limits.maxEntityFragment limits.maxAssemblyBytes).1

/-- A new buffer after some fragments. -/
def absorbAll (arrivals : List Arrival) : FragmentAssembly :=
  arrivals.foldl (absorb lastFlags limits) {}

/-- A buffer absorbs one fragment after the other. -/
theorem absorbAll_append (arrivals : List Arrival) (arrival : Arrival) :
    absorbAll lastFlags limits (arrivals ++ [arrival]) =
      absorb lastFlags limits (absorbAll lastFlags limits arrivals) arrival := by
  rw [absorbAll, List.foldl_append]
  rfl

end

/-- Whatever is drawn from the fragments `sent` of a message: the buffer is complete if and only if
every index has arrived, and then it assembles to the value. -/
def RoundTrips (limits : FragmentLimits) (value : Bytes) (sent : UInt32 → Bytes → Prop) : Prop :=
  ∀ (lastFlags : Bool) (arrivals : List Arrival), (∀ a ∈ arrivals, sent a.counter a.plaintext) →
    ((absorbAll lastFlags limits arrivals).complete ↔
      ∀ n < chunkCount value.length limits.maxEntityFragment, ∃ a ∈ arrivals, a.HasIndex n) ∧
    ((absorbAll lastFlags limits arrivals).complete →
      (absorbAll lastFlags limits arrivals).assemble limits.maxEntityFragment = value)

/-- The fragments that can be read, with the times of their arrival. -/
def readable (arrivals : List Arrival) : List (EntityPayload × UInt32) :=
  arrivals.filterMap fun a => (EntityPayload.parse a.plaintext).map (·, a.now)

/-- What can be read of the arrivals has arrived. -/
theorem mem_readable {arrivals : List Arrival} {p : EntityPayload × UInt32} (h : p ∈ readable arrivals) :
    ∃ a ∈ arrivals, EntityPayload.parse a.plaintext = some p.1 := by
  obtain ⟨a, ha, hview⟩ := List.mem_filterMap.mp h
  obtain ⟨view, hparse, rfl⟩ := Option.map_eq_some_iff.mp hview
  exact ⟨a, ha, hparse⟩

/-- An index has arrived if and only if a fragment with it can be read. -/
theorem exists_hasIndex_iff {arrivals : List Arrival} {n : Nat} : (∃ a ∈ arrivals, a.HasIndex n) ↔
    ∃ v ∈ (readable arrivals).map (·.1), v.fragmentIndex.toNat = n := by
  constructor
  · rintro ⟨a, ha, view, hparse, hindex⟩
    have hmem : (view, a.now) ∈ readable arrivals :=
      List.mem_filterMap.mpr ⟨a, ha, by rw [hparse]; rfl⟩
    exact ⟨view, List.mem_map_of_mem hmem, hindex⟩
  · rintro ⟨v, hv, hindex⟩
    obtain ⟨p, hp, rfl⟩ := List.mem_map.mp hv
    obtain ⟨a, ha, hparse⟩ := mem_readable hp
    exact ⟨a, ha, p.1, hparse, hindex⟩

section

variable {lastFlags : Bool} {limits : FragmentLimits} {slot : Nat} {base : UInt32} {count : UInt8}
  {views receipts : List EntityPayload} {a : FragmentAssembly} {value : Bytes}

/-- The receiver feeds one buffer if all fragments lead to the same first counter. -/
theorem absorbAll_eq_feed (base : UInt32) {arrivals : List Arrival} (h : ∀ a ∈ arrivals, ∀ view,
      EntityPayload.parse a.plaintext = some view → fragmentMessageTxBase a.counter view = base) :
    absorbAll lastFlags limits arrivals =
      (feed lastFlags limits.maxEntityFragment limits.maxAssemblyBytes base (readable arrivals)).1 := by
  induction arrivals using List.reverseRecOn with
  | nil => rfl
  | append_singleton arrivals arrival ih =>
    have hinit := ih fun a ha => h a (List.mem_append_left _ ha)
    have hlast := h arrival (List.mem_append_right _ (List.mem_singleton_self arrival))
    have hreadable : readable (arrivals ++ [arrival]) = readable arrivals ++ readable [arrival] :=
      List.filterMap_append
    rw [absorbAll_append, hinit, absorb, hreadable]
    cases hparse : EntityPayload.parse arrival.plaintext with
    | none =>
      have hnil : readable [arrival] = [] := by simp [readable, hparse]
      rw [hnil, List.append_nil]
    | some view =>
      have hone : readable [arrival] = [(view, arrival.now)] := by simp [readable, hparse]
      rw [hone, feed_append]
      dsimp only
      rw [hlast view hparse]
      rfl

/-- A fragment that fits has a first one of its index. -/
theorem mem_firsts_of_fits {view : EntityPayload} (hview : view ∈ views) (hfits : view.Fits slot count) :
    ∃ u ∈ firsts slot count views, u.fragmentIndex = view.fragmentIndex := by
  induction views using List.reverseRecOn with
  | nil => cases hview
  | append_singleton views v ih =>
    rw [firsts_append]
    have hinit (hmem : view ∈ views) : ∃ u ∈ (if v.Fits slot count ∧
          ∀ u ∈ firsts slot count views, u.fragmentIndex ≠ v.fragmentIndex then
        firsts slot count views ++ [v] else firsts slot count views),
        u.fragmentIndex = view.fragmentIndex := by
      obtain ⟨u, hu, heq⟩ := ih hmem
      refine ⟨u, ?_, heq⟩
      split
      · exact List.mem_append_left _ hu
      · exact hu
    rcases List.mem_append.mp hview with hmem | hmem
    · exact hinit hmem
    · rw [List.mem_singleton.mp hmem] at hfits ⊢
      split
      · exact ⟨v, List.mem_append_right _ (List.mem_singleton_self v), rfl⟩
      next hold =>
        -- an earlier one has been taken
        rw [not_and, not_forall] at hold
        obtain ⟨u, hu⟩ := hold hfits
        rw [Classical.not_imp, ne_eq, not_not] at hu
        exact ⟨u, hu⟩

/-- A complete buffer shows a receipt for each index. -/
theorem Written.complete_iff (h : a.Written slot base count receipts) :
    a.complete ↔ count ≠ 0 ∧ ∀ i < count.toNat, ∃ v ∈ receipts, v.fragmentIndex.toNat = i := by
  unfold complete
  simp only [h.active, h.fragments, h.received, Bool.true_and, Bool.and_eq_true, bne_iff_ne, ne_eq,
    List.all_eq_true, List.mem_range, List.any_eq_true, beq_iff_eq]

/-- The parts of a value, concatenated. -/
theorem concat_parts (h : a.Written slot base count receipts) (hcomplete : a.complete)
    (hcount : count.toNat = chunkCount value.length slot) (hpos : 0 < slot)
    (hparts : ∀ v ∈ receipts, IsPart v value slot) : concat count receipts = value := by
  have hslices : concat count receipts =
      (List.range count.toNat).flatMap fun i => slice value (i * slot) slot := by
    unfold concat
    apply List.flatMap_congr
    intro i hi
    obtain ⟨v, hv, rfl, hfilter⟩ := h.unique hcomplete (List.mem_range.mp hi)
    rw [hfilter, List.flatMap_singleton]
    exact (hparts v hv).value
  rw [hslices, flatMap_slice, hcount, List.take_of_length_le (le_chunkCount_mul hpos)]

/-- A buffer that has taken parts of a value: it is complete if and only if every index is among them,
and then it assembles to the value. -/
theorem Written.reads_iff (h : a.Written slot base count (firsts slot count views))
    (hviews : ∀ v ∈ views, IsPart v value slot ∧ v.Admitted)
    (hcount : count.toNat = chunkCount value.length slot) (hpos : 0 < slot) :
    (a.complete ↔ ∀ n < chunkCount value.length slot, ∃ v ∈ views, v.fragmentIndex.toNat = n) ∧
      (a.complete → a.assemble slot = value) := by
  have hmem := (firsts_fits slot count views).1
  constructor
  · rw [h.complete_iff, hcount]
    constructor
    · rintro ⟨-, hreceipts⟩ n hn
      obtain ⟨v, hv, hindex⟩ := hreceipts n hn
      exact ⟨v, (hmem v hv).1, hindex⟩
    · intro hindex
      refine ⟨fun hzero => ?_, fun n hn => ?_⟩
      · have hpositive := chunkCount_pos value.length slot
        rw [← hcount, hzero] at hpositive
        exact Nat.lt_irrefl 0 hpositive
      · obtain ⟨v, hv, rfl⟩ := hindex n hn
        obtain ⟨u, hu, heq⟩ := mem_firsts_of_fits hv ((hviews v hv).1.fits hcount)
        exact ⟨u, hu, by rw [heq]⟩
  · intro hcomplete
    rw [(h.assemble_iff hcomplete).mpr ?_]
    · exact concat_parts h hcomplete hcount hpos fun v hv => (hviews v (hmem v hv).1).1
    · exact firsts_agree (fun v hv => (hviews v hv).2) fun v hv _ => (hviews v hv).1.length_le

/-- The fragments of one message that there is room for, in any order and with any repetitions. -/
theorem roundTrips_of_fragments {limits : FragmentLimits} {value : Bytes} {base : UInt32}
    {sent : UInt32 → Bytes → Prop} (hpos : 0 < limits.maxEntityFragment)
    (hmax : limits.maxEntityFragment ≤ EspTree.maxEntityFragment v2MaxPayload)
    (hcount : chunkCount value.length limits.maxEntityFragment < 2 ^ 8)
    (hroom : chunkCount value.length limits.maxEntityFragment * limits.maxEntityFragment ≤
      limits.maxAssemblyBytes)
    (hsent : ∀ counter plaintext, sent counter plaintext →
      ∃ n < chunkCount value.length limits.maxEntityFragment,
        IsFragmentAt base value limits.maxEntityFragment n counter plaintext) :
    RoundTrips limits value sent := by
  intro lastFlags arrivals hall
  set slot := limits.maxEntityFragment with hslot
  set count := UInt8.ofNat (chunkCount value.length slot) with hcountDef
  have hcountNat : count.toNat = chunkCount value.length slot := UInt8.toNat_ofNat_of_lt' hcount
  have hread : ∀ a ∈ arrivals, ∃ view, EntityPayload.parse a.plaintext = some view ∧
      IsPart view value slot ∧ fragmentMessageTxBase a.counter view = base ∧ view.Admitted := by
    intro a ha
    obtain ⟨n, hn, hfragment⟩ := hsent _ _ (hall a ha)
    obtain ⟨view, hparse, -, hpart, hbase⟩ := hfragment.view hn hcount
    exact ⟨view, hparse, hpart, hbase, hfragment.admitted hmax hparse⟩
  have hviews : ∀ v ∈ (readable arrivals).map (·.1), IsPart v value slot ∧ v.Admitted := by
    intro v hv
    obtain ⟨p, hp, rfl⟩ := List.mem_map.mp hv
    obtain ⟨a, ha, hparse⟩ := mem_readable hp
    obtain ⟨view, hview, hpart, -, hadmitted⟩ := hread a ha
    cases hview.symm.trans hparse
    exact ⟨hpart, hadmitted⟩
  rw [absorbAll_eq_feed base]
  · simp only [exists_hasIndex_iff]
    obtain ⟨hnone, hfeed⟩ | ⟨count', a, hsome, -, hfeed, hwritten⟩ :=
      feed_written lastFlags base (readable arrivals) fun p hp => (hviews p.1 (List.mem_map_of_mem hp)).2
    · -- nothing has arrived
      rw [hfeed]
      refine ⟨⟨nofun, fun hindex => ?_⟩, nofun⟩
      obtain ⟨v, hv, -⟩ := hindex 0 (chunkCount_pos _ _)
      refine absurd ((hviews v hv).1.fits hcountNat) (not_fits_of_messageCount?_none hnone ?_ v hv)
      rw [hcountNat]
      exact hroom
    · have hsame : count' = count := by
        unfold messageCount? at hsome
        obtain ⟨v, hv, rfl⟩ := Option.map_eq_some_iff.mp hsome
        exact ((hviews v (List.mem_of_find?_eq_some hv)).1.fits hcountNat).1
      subst hsame
      rw [hfeed]
      exact hwritten.reads_iff hviews hcountNat hpos
  · intro a ha view hparse
    obtain ⟨view', hview, -, hbase, -⟩ := hread a ha
    cases hview.symm.trans hparse
    exact hbase

end

end FragmentAssembly

/-! ## The senders -/

/-- The effects of a call: those that were not there before. -/
def newEffects {α : Type} (before after : List α) : List α := after.take (after.length - before.length)

/-- The new effects stand in front of the old ones. -/
theorem newEffects_append {α : Type} (new before : List α) : newEffects before (new ++ before) = new := by
  rw [newEffects, List.length_append, Nat.add_sub_cancel]
  exact List.take_left

/-- All that is sent are fragments of the value from number `chunk` on, and if the sender succeeds then
all of these are. -/
structure Splits (base : UInt32) (value : Bytes) (size chunk : Nat) (sent : UInt32 → Bytes → Prop)
    (ok : Bool) : Prop where
  only : ∀ counter plaintext, sent counter plaintext →
    ∃ n < chunkCount value.length size, IsFragmentAt base value size n counter plaintext
  all : ok = true → ∀ n, chunk ≤ n → n < chunkCount value.length size →
    ∃ counter plaintext, sent counter plaintext ∧ IsFragmentAt base value size n counter plaintext

section

variable {base : UInt32} {value : Bytes} {size chunk : Nat} {sent sent' : UInt32 → Bytes → Prop}
  {ok ok' : Bool} {counter : UInt32} {plaintext : Bytes}

/-- Nothing is sent. -/
theorem Splits.nothing (hsent : ∀ n p, ¬ sent n p) : Splits base value size chunk sent false :=
  ⟨fun n p h => absurd h (hsent n p), nofun⟩

/-- Nothing is left. -/
theorem Splits.done (hsent : ∀ n p, ¬ sent n p) (hend : chunkCount value.length size ≤ chunk) :
    Splits base value size chunk sent ok :=
  ⟨fun n p h => absurd h (hsent n p), fun _ n hle hlt => absurd hlt (by omega)⟩

/-- The fragment of number `chunk` is sent, and then no others. -/
theorem Splits.last (hchunk : chunk < chunkCount value.length size)
    (hfragment : IsFragmentAt base value size chunk counter plaintext)
    (hsent : ∀ n p, sent n p → n = counter ∧ p = plaintext) :
    Splits base value size chunk sent false := by
  refine ⟨fun n p h => ?_, nofun⟩
  obtain ⟨rfl, rfl⟩ := hsent n p h
  exact ⟨chunk, hchunk, hfragment⟩

/-- The fragment of number `chunk` is sent, and then the others. -/
theorem Splits.next (h : Splits base value size (chunk + 1) sent ok)
    (hchunk : chunk < chunkCount value.length size)
    (hfragment : IsFragmentAt base value size chunk counter plaintext)
    (hsent : ∀ n p, sent' n p ↔ sent n p ∨ n = counter ∧ p = plaintext) :
    Splits base value size chunk sent' ok := by
  constructor
  · intro n p hnp
    rcases (hsent n p).mp hnp with hnp | ⟨rfl, rfl⟩
    · exact h.only n p hnp
    · exact ⟨chunk, hchunk, hfragment⟩
  · intro hok n hle hlt
    by_cases hsame : n = chunk
    · rw [hsame]
      exact ⟨counter, plaintext, (hsent _ _).mpr (.inr ⟨rfl, rfl⟩), hfragment⟩
    · obtain ⟨m, p, hmp, hn⟩ := h.all hok n (by omega) hlt
      exact ⟨m, p, (hsent _ _).mpr (.inl hmp), hn⟩

end

namespace Remote

variable {η : Type} {P : Platform η} {e : Env}

/-- One frame: nothing is encrypted, or the plaintext is. -/
theorem sendUpTracked_effects (s : Remote η) (type : PacketType) (plaintext : Bytes) :
    let o := s.sendUpTracked P e type plaintext
    o.1.radio.txCounter = s.radio.txCounter + 1 ∧
      (o.2 ≠ some true ∧ o.1.radio.effects = s.radio.effects ∨
        ∃ mac frame sent, o.1.radio.effects = [.send mac frame sent,
          .encrypt type s.session.sessionKey s.radio.txCounter plaintext] ++ s.radio.effects) := by
  dsimp only
  unfold sendUpTracked
  dsimp only
  split
  · exact ⟨rfl, .inl ⟨nofun, rfl⟩⟩
  · unfold sendSealed
    split
    · exact ⟨rfl, .inl ⟨by simp, rfl⟩⟩
    · split
      · exact ⟨rfl, .inl ⟨by simp, rfl⟩⟩
      · exact ⟨rfl, .inr ⟨_, _, _, rfl⟩⟩

/-- What the leaf has encrypted under `STATE`. -/
def StateSent (effects : List Effect) (counter : UInt32) (plaintext : Bytes) : Prop :=
  ∃ key, .encrypt .state key counter plaintext ∈ effects

/-- What the loop of `send_state_` encrypts, from any fragment on: the rest of the value, one
fragment a counter, up to the end or to the first that is not sent. -/
theorem sendStateFragments_splits (index : UInt8) (payload : Bytes) (size left chunk : Nat)
    (base : UInt32) (s : Remote η) (hcounter : s.radio.txCounter = base + UInt32.ofNat chunk)
    (hleft : chunk + left = chunkCount payload.length size) :
    let o := sendStateFragments P e index payload size (chunkCount payload.length size) left chunk s
    ∃ new, o.1.radio.effects = new ++ s.radio.effects ∧
      Splits base payload size chunk (StateSent new) o.2 := by
  induction left generalizing chunk s with
  | zero => exact ⟨[], rfl, .done (by simp [StateSent]) (by omega)⟩
  | succ left ih =>
    dsimp only [sendStateFragments]
    have hchunk : chunk < chunkCount payload.length size := by omega
    set fragment := fragmentOf index (s.stateFlags index (chunkCount payload.length size) chunk) payload
      size (chunkCount payload.length size) chunk with hfragmentDef
    have hfragment : IsFragmentAt base payload size chunk s.radio.txCounter fragment.bytes :=
      ⟨hcounter, _, _, rfl⟩
    obtain ⟨htx, hone⟩ := sendUpTracked_effects (P := P) (e := e) s .state fragment.bytes
    generalize s.sendUpTracked P e .state fragment.bytes = o at htx hone ⊢
    obtain ⟨s', sent?⟩ := o
    dsimp only at htx hone
    -- what is new after this fragment
    obtain ⟨one, heffects, honly, hsent⟩ : ∃ one, s'.radio.effects = one ++ s.radio.effects ∧
        (∀ n p, StateSent one n p → n = s.radio.txCounter ∧ p = fragment.bytes) ∧
        (sent? = some true → StateSent one s.radio.txCounter fragment.bytes) := by
      obtain ⟨hnot, heffects⟩ | ⟨mac, frame, sent, heffects⟩ := hone
      · exact ⟨[], heffects, by simp [StateSent], fun hyes => absurd hyes hnot⟩
      · exact ⟨_, heffects, by simp [StateSent], fun _ => by simp [StateSent]⟩
    have hfail : ∀ s'' : Remote η, s''.radio.effects = s'.radio.effects →
        ∃ new, s''.radio.effects = new ++ s.radio.effects ∧
          Splits base payload size chunk (StateSent new) false := by
      intro s'' hsame
      refine ⟨one, hsame.trans heffects, .last hchunk hfragment honly⟩
    match sent? with
    | none => exact hfail s' rfl
    | some false => exact hfail (s'.stateSendFailed e index) rfl
    | some true =>
      have hnext : s'.radio.txCounter = base + UInt32.ofNat (chunk + 1) := by
        rw [htx, hcounter, UInt32.ofNat_add, UInt32.add_assoc]
        rfl
      obtain ⟨new, hnew, hsplits⟩ := ih (chunk + 1) s' hnext (by omega)
      refine ⟨new ++ one, ?_, hsplits.next hchunk hfragment fun n p => ?_⟩
      · rw [List.append_assoc, ← heffects]
        exact hnew
      · have happend : StateSent (new ++ one) n p ↔ StateSent new n p ∨ StateSent one n p := by
          simp only [StateSent, List.mem_append, exists_or]
        rw [happend]
        refine or_congr_right ⟨honly n p, ?_⟩
        rintro ⟨rfl, rfl⟩
        exact hsent rfl

/-! ### When the leaf succeeds -/

/-- A fragment has its header and no more than `size` bytes of the value. -/
theorem length_fragmentOf_le (index flags : UInt8) (payload : Bytes) (size count chunk : Nat) :
    (fragmentOf index flags payload size count chunk).bytes.length ≤ entityPacketHeaderLen + size := by
  rw [EntityPayload.length_bytes]
  exact Nat.add_le_add_left (List.length_take_le _ _) _

/-- Where the radio takes everything, a plaintext that fits the session is sent. -/
theorem sendUpTracked_of_sends (hpsk : P.crypto.psk.isSome) (hsends : ∀ n, e.sendOk n = true) (s : Remote η)
    (type : PacketType) {plaintext : Bytes} (hlen : plaintext.length ≤ maxPlaintext s.session.sessionMaxPayload) :
    ∃ s', s.sendUpTracked P e type plaintext = (s', some true) ∧ s'.session = s.session := by
  have hbump : (s.bumpTxCounter.updateOutstandingRequest P type s.radio.txCounter
      (P.crypto.aes256CtrCrypt s.session.sessionKey s.radio.txCounter plaintext)).session = s.session := rfl
  unfold sendUpTracked
  dsimp only
  rw [Crypto.crypt_of_psk hpsk]
  dsimp only
  rw [sendSealed, hbump, if_neg (Nat.not_lt.2 hlen), Crypto.crypt_of_psk hpsk]
  exact ⟨_, congrArg (fun sent => (_, some sent)) (hsends _), rfl⟩

/-- So are all fragments of a value. -/
theorem sendStateFragments_of_sends (hpsk : P.crypto.psk.isSome) (hsends : ∀ n, e.sendOk n = true) (index : UInt8)
    (payload : Bytes) (size count left chunk : Nat) (s : Remote η)
    (hfit : entityPacketHeaderLen + size ≤ maxPlaintext s.session.sessionMaxPayload) :
    (sendStateFragments P e index payload size count left chunk s).2 = true := by
  induction left generalizing chunk s with
  | zero => rfl
  | succ left ih =>
    obtain ⟨s', hsent, hsession⟩ := sendUpTracked_of_sends (e := e) hpsk hsends s .state
      ((length_fragmentOf_le index (s.stateFlags index count chunk) payload size count chunk).trans hfit)
    rw [sendStateFragments, hsent]
    exact ih (chunk + 1) s' (hsession ▸ hfit)

/-- `send_state_` succeeds where every send does: on a joined leaf, for an entity that it has, when the largest
fragment of the session fits a frame. -/
theorem sendState_of_sends (hpsk : P.crypto.psk.isSome) (hsends : ∀ n, e.sendOk n = true) (s : Remote η)
    (index : UInt8) (value : Bytes) (reset : Bool) {record : EntityRecord}
    (hrecord : s.entities.records[index.toNat]? = some record) (hjoined : s.session.joined)
    (hparent : s.route.parentValid) (hpush : s.entities.statePushEnabled)
    (hfit : entityPacketHeaderLen + s.session.limits.maxEntityFragment ≤ maxPlaintext s.session.sessionMaxPayload) :
    (s.sendState P e index value reset).2 = true := by
  have hloop := sendStateFragments_of_sends (P := P) hpsk hsends index (record.payload value)
    s.session.limits.maxEntityFragment (chunkCount (record.payload value).length s.session.limits.maxEntityFragment)
    (chunkCount (record.payload value).length s.session.limits.maxEntityFragment) 0 s hfit
  have hready : ¬ (¬ s.session.joined ∨ ¬ s.route.parentValid ∨ ¬ s.entities.statePushEnabled) := by
    simp only [hjoined, hparent, hpush, not_true_eq_false, or_self, not_false_eq_true]
  rw [sendState, hrecord]
  dsimp only
  rw [if_neg hready]
  generalize sendStateFragments P e index (record.payload value) s.session.limits.maxEntityFragment _ _ 0 s = o
    at hloop
  obtain ⟨s', sent⟩ := o
  obtain rfl : sent = true := hloop
  rfl

end Remote

namespace Bridge

variable {c : Crypto} {e : Env}

/-- What the bridge has encrypted under `COMMAND`. -/
def CommandSent (effects : List Effect) (counter : UInt32) (plaintext : Bytes) : Prop :=
  ∃ key, .encrypt .command key counter plaintext ∈ effects

/-- What the loop of `send_command_fragments_` encrypts, from any fragment on.  The counters are
drawn from the session or counted up from the base of an earlier attempt, which gives the same. -/
theorem sendCommandLoop_splits (mac : Mac) (index : UInt8) (value : Bytes) (base : UInt32)
    (consume : Bool) (size left chunk : Nat) (h : Hub) (x : Session)
    (hleft : chunk + left = chunkCount value.length size) :
    let o := sendCommandLoop c e mac index value base consume size (chunkCount value.length size) left
      chunk h x
    ∃ new, o.1.effects = new ++ h.effects ∧
      Splits base value size chunk (CommandSent new) o.2.2 := by
  induction left generalizing chunk h x with
  | zero => exact ⟨[], rfl, .done (by simp [CommandSent]) (by omega)⟩
  | succ left ih =>
    dsimp only [sendCommandLoop]
    have hchunk : chunk < chunkCount value.length size := by omega
    have hfragment : IsFragmentAt base value size chunk (base + UInt32.ofNat chunk)
        (commandFragment index value size (chunkCount value.length size) chunk).bytes :=
      ⟨rfl, _, _, rfl⟩
    generalize (if consume then x.takeTxCounter (base + UInt32.ofNat chunk) else x) = x'
    generalize (commandFragment index value size (chunkCount value.length size) chunk).bytes = fragment
      at hfragment ⊢
    generalize hone : sendEncryptedWithTxCounterResult c e h mac x' .command downHop
      (base + UInt32.ofNat chunk) fragment = o
    obtain ⟨one, heffects, honly, hsent⟩ : ∃ one, o.1.effects = one ++ h.effects ∧
        (∀ n p, CommandSent one n p → n = base + UInt32.ofNat chunk ∧ p = fragment) ∧
        (o.2 = .ok → CommandSent one (base + UInt32.ofNat chunk) fragment) := by
      obtain ⟨hhub, hnot⟩ | ⟨-, frame, sent, -, hhub⟩ :=
        sendEncryptedWithTxCounterResult_cases _ _ _ _ rfl _ hone
      · exact ⟨[], by rw [hhub]; rfl, by simp [CommandSent], fun hyes => absurd hyes hnot⟩
      · refine ⟨[.send mac frame sent,
          .encrypt .command x'.sessionKey (base + UInt32.ofNat chunk) fragment], ?_, ?_, fun _ => ?_⟩
        · rw [hhub]
          rfl
        · simp [CommandSent]
        · simp [CommandSent]
    split
    next hok =>
      obtain ⟨new, hnew, hsplits⟩ := ih (chunk + 1) o.1 x' (by omega)
      refine ⟨new ++ one, ?_, hsplits.next hchunk hfragment fun n p => ?_⟩
      · rw [List.append_assoc, ← heffects]
        exact hnew
      · have happend : CommandSent (new ++ one) n p ↔ CommandSent new n p ∨ CommandSent one n p := by
          simp only [CommandSent, List.mem_append, exists_or]
        rw [happend]
        refine or_congr_right ⟨honly n p, ?_⟩
        rintro ⟨rfl, rfl⟩
        exact hsent hok
    · exact ⟨one, heffects, .last hchunk hfragment honly⟩

end Bridge

/-- Limits that the two ends settle on when they join, or start with. -/
def FragmentLimits.Negotiated (limits : FragmentLimits) : Prop :=
  limits = {} ∨ limits = .ofMtu v1MaxPayload ∨ limits = .ofMtu v2MaxPayload

theorem Bridge.negotiated_limits (leafFlags bridgeFlags : UInt8) :
    (negotiated leafFlags bridgeFlags).2.Negotiated := by
  unfold negotiated
  split
  · exact .inr (.inr rfl)
  · exact .inl rfl

/-- The largest fragment of a session fits a frame of it. -/
theorem Bridge.negotiated_fits (leafFlags bridgeFlags : UInt8) :
    entityPacketHeaderLen + (negotiated leafFlags bridgeFlags).2.maxEntityFragment ≤
      maxPlaintext (negotiated leafFlags bridgeFlags).1 := by
  unfold negotiated
  split <;> decide

theorem FragmentLimits.Negotiated.sizes {limits : FragmentLimits} (h : limits.Negotiated) :
    (limits.maxEntityFragment = 220 ∨ limits.maxEntityFragment = 1440) ∧
      limits.maxAssemblyBytes ≤ 6 * limits.maxEntityFragment := by
  rcases h with rfl | rfl | rfl <;> decide

/-- A call of one of the two functions that split a value: the limits of the sender, the value, what is
encrypted in the call, and whether it succeeds. -/
inductive Splitting : FragmentLimits → Bytes → (UInt32 → Bytes → Prop) → Bool → Prop
  /-- `send_state_`. -/
  | state {η : Type} (P : Remote.Platform η) (e : Remote.Env) (s : Remote η) (index : UInt8)
      (value : Bytes) (reset : Bool) {record : Remote.EntityRecord}
      (hrecord : s.entities.records[index.toNat]? = some record) :
      Splitting s.session.limits (record.payload value)
        (Remote.StateSent (newEffects s.radio.effects (s.sendState P e index value reset).1.radio.effects))
        (s.sendState P e index value reset).2
  /-- `send_command_fragments_`. -/
  | command (c : Crypto) (e : Bridge.Env) (h : Bridge.Hub) (mac : Mac) (x : Bridge.Session)
      (index : UInt8) (value : Bytes) (txBase : UInt32) (consume : Bool) :
      Splitting x.limits value
        (Bridge.CommandSent (newEffects h.effects
          (Bridge.sendCommandFragments c e h mac x index value txBase consume).1.effects))
        (Bridge.sendCommandFragments c e h mac x index value txBase consume).2.2

/-- Both senders split their value in the same way. -/
theorem Splitting.splits {limits : FragmentLimits} {value : Bytes} {sent : UInt32 → Bytes → Prop}
    {ok : Bool} (h : Splitting limits value sent ok) :
    ∃ base, Splits base value limits.maxEntityFragment 0 sent ok := by
  cases h with
  | @state η P e s index payload reset record hrecord =>
    refine ⟨s.radio.txCounter, ?_⟩
    unfold Remote.sendState
    rw [hrecord]
    dsimp only
    split
    · have hnil : newEffects s.radio.effects s.radio.effects = [] := newEffects_append [] _
      dsimp only
      rw [hnil]
      exact .nothing (by simp [Remote.StateSent])
    · obtain ⟨new, hnew, hsplits⟩ := Remote.sendStateFragments_splits (P := P) (e := e) index
        (record.payload payload) s.session.limits.maxEntityFragment _ 0 s.radio.txCounter s
        (UInt32.add_zero _).symm (Nat.zero_add _)
      generalize Remote.sendStateFragments P e index (record.payload payload)
        s.session.limits.maxEntityFragment _ _ 0 s = o at hnew hsplits
      obtain ⟨s', ok⟩ := o
      cases ok with
      | false =>
        dsimp only at hnew hsplits ⊢
        rw [hnew, newEffects_append]
        exact hsplits
      | true =>
        -- the message that is remembered is one more effect
        dsimp only at hnew hsplits ⊢
        have hmore : ((s'.rememberState e index payload s.radio.txCounter reset).note
            (.stateMessage s.radio.txCounter index (record.payload payload))).radio.effects =
            (.stateMessage s.radio.txCounter index (record.payload payload) :: new) ++
              s.radio.effects := congrArg (List.cons _) hnew
        have hsame : Remote.StateSent
            (.stateMessage s.radio.txCounter index (record.payload payload) :: new) =
            Remote.StateSent new := by
          funext n p
          simp [Remote.StateSent]
        rw [hmore, newEffects_append, hsame]
        exact hsplits
  | command c e hub mac x index payload txBase consume =>
    refine ⟨txBase, ?_⟩
    obtain ⟨new, hnew, hsplits⟩ := Bridge.sendCommandLoop_splits (c := c) (e := e) mac index value txBase
      consume x.limits.maxEntityFragment _ 0 hub x (Nat.zero_add _)
    unfold Bridge.sendCommandFragments
    dsimp only at hnew hsplits ⊢
    rw [hnew, newEffects_append]
    exact hsplits

/-- Either sender splits a value, and either receiver, with fragments of the same size and room for all
of them, gets it back: the buffer is complete if and only if every index has arrived, and then it
assembles to the value.  If the sender succeeds then every index can arrive. -/
theorem Splitting.roundTrip {own limits : FragmentLimits} {value : Bytes}
    {sent : UInt32 → Bytes → Prop} {ok : Bool} (h : Splitting own value sent ok)
    (hlimits : limits.Negotiated) (hsize : own.maxEntityFragment = limits.maxEntityFragment)
    (hroom : chunkCount value.length limits.maxEntityFragment * limits.maxEntityFragment ≤
      limits.maxAssemblyBytes) :
    FragmentAssembly.RoundTrips limits value sent ∧
      (ok = true → ∀ n < chunkCount value.length limits.maxEntityFragment,
        ∃ a : Arrival, sent a.counter a.plaintext ∧ a.HasIndex n) := by
  obtain ⟨base, hsplits⟩ := h.splits
  obtain ⟨hfragment, hassembly⟩ := hlimits.sizes
  rw [hsize] at hsplits
  have hpos : 0 < limits.maxEntityFragment := by
    rcases hfragment with h | h <;> omega
  have hcount : chunkCount value.length limits.maxEntityFragment < 2 ^ 8 := by
    have hsix := Nat.le_of_mul_le_mul_right (hroom.trans hassembly) hpos
    omega
  constructor
  · apply FragmentAssembly.roundTrips_of_fragments hpos ?_ hcount hroom hsplits.only
    rcases hfragment with h | h <;> rw [h] <;> decide
  · intro hok n hn
    obtain ⟨counter, plaintext, hsent, hat⟩ := hsplits.all hok n (Nat.zero_le n) hn
    obtain ⟨view, hparse, hindex, -⟩ := hat.view hn hcount
    exact ⟨⟨counter, plaintext, 0⟩, hsent, view, hparse, hindex⟩

/-- A session that a command goes out to. -/
def openSession : Bridge.Session := { leafMac := Octets.fit 6 [1], sessionKeyValid := true }

/-- What the bridge encrypts for a command of 300 bytes. -/
def sentCommand : Bridge.Outcome :=
  Bridge.sendCommandFragments .sample (.quiet 70 (Octets.fit 16 [7]))
    { config := { bridgeMac := Octets.fit 6 [9] } } (Octets.fit 6 [1]) openSession 5
    (List.replicate 300 7) 41 true

/-- A text of 4000 bytes. -/
def reportedText : Bytes := List.replicate 4000 7

def textRecord : Remote.EntityRecord := { schema := { entityType := fieldTypeText }, currentText := reportedText }

/-- A leaf that has joined with these flags, and has the text to report. -/
def textLeaf (leafFlags bridgeFlags : UInt8) : Remote Unit where
  config := { leafMac := Octets.fit 6 [1] }
  session := { joined := true, normal := true, sessionMaxPayload := (Bridge.negotiated leafFlags bridgeFlags).1,
               limits := (Bridge.negotiated leafFlags bridgeFlags).2 }
  route := { parentMac := Octets.fit 6 [9], parentValid := true }
  entities := { records := [textRecord], statePushEnabled := true }
  files := { handlers := fun _ => none }

/-- What the leaf encrypts for the text. -/
def sentText (leafFlags bridgeFlags : UInt8) : UInt32 → Bytes → Prop :=
  Remote.StateSent (newEffects [] ((textLeaf leafFlags bridgeFlags).sendState .sample
    (.quiet 70 (Octets.fit 16 [7])) 0 [] true).1.radio.effects)

/-- A command of 300 bytes from the bridge, and a text that the leaf reports with the larger payload
size. -/
theorem Splitting.roundTrip_senders :
    (FragmentAssembly.RoundTrips {} (List.replicate 300 7)
        (Bridge.CommandSent (newEffects [] sentCommand.1.effects)) ∧
      ∀ n < chunkCount (List.replicate 300 (7 : UInt8)).length ({} : FragmentLimits).maxEntityFragment,
        ∃ a : Arrival, Bridge.CommandSent (newEffects [] sentCommand.1.effects) a.counter a.plaintext ∧
          a.HasIndex n) ∧
    (FragmentAssembly.RoundTrips (Bridge.negotiated 1 1).2 reportedText (sentText 1 1) ∧
      ∀ n < chunkCount reportedText.length (Bridge.negotiated 1 1).2.maxEntityFragment,
        ∃ a : Arrival, sentText 1 1 a.counter a.plaintext ∧ a.HasIndex n) := by
  constructor
  · have hok : sentCommand.2.2 = true := by decide +kernel
    have hroom : chunkCount (List.replicate 300 (7 : UInt8)).length
        ({} : FragmentLimits).maxEntityFragment * ({} : FragmentLimits).maxEntityFragment ≤
          ({} : FragmentLimits).maxAssemblyBytes := by decide +kernel
    have htrip := Splitting.roundTrip (.command .sample (.quiet 70 (Octets.fit 16 [7]))
        { config := { bridgeMac := Octets.fit 6 [9] } }
        (Octets.fit 6 [1]) openSession 5 (List.replicate 300 7) 41 true) (.inl rfl) rfl hroom
    rw [← sentCommand] at htrip
    exact ⟨htrip.1, htrip.2 hok⟩
  · have hok := Remote.sendState_of_sends (P := .sample) (e := .quiet 70 (Octets.fit 16 [7])) rfl (fun _ => rfl)
      (textLeaf 1 1) 0 [] true rfl rfl rfl rfl (Bridge.negotiated_fits 1 1)
    have hvalue : textRecord.payload [] = reportedText := if_pos (by decide)
    have hlength : reportedText.length = 4000 := List.length_replicate
    have hroom : chunkCount reportedText.length (Bridge.negotiated 1 1).2.maxEntityFragment *
        (Bridge.negotiated 1 1).2.maxEntityFragment ≤ (Bridge.negotiated 1 1).2.maxAssemblyBytes := by
      rw [hlength]
      decide +kernel
    have hsplits := Splitting.state .sample (.quiet 70 (Octets.fit 16 [7])) (textLeaf 1 1) 0 [] true
      (show (textLeaf 1 1).entities.records[(0 : UInt8).toNat]? = some textRecord from rfl)
    rw [hvalue] at hsplits
    have htrip := Splitting.roundTrip hsplits (Bridge.negotiated_limits 1 1) rfl hroom
    exact ⟨htrip.1, htrip.2 hok⟩

end EspTree
