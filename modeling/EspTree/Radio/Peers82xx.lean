import EspTree.Radio.Peers

/-!
# The peers of the ESP8266

`ESPNow82xxRemote` (`espnow_82xx_remote/espnow_82xx_remote.cpp`) keeps the table of `Radio/Peers` in its own
way: names have colons, a peer that is there is deleted and added again (for its channel), and a peer is given
up for its age and not for its reading.  So the clock may wrap, but a peer that was used in this very
millisecond stays.

`clear_all_peers_` has run, which leaves nothing in the table; `protected_peers_` is only displayed.

The age is the difference of two readings, and it is right if less than a period of the clock lies
between them.  `Timely` asks for that, and for nothing about the readings themselves.  The choice
among the peers is by age, with the preferred parent last, and the loop keeps the oldest one that it
has seen; as an arg-min over the ages it is the same choice as in `Radio.Peers`, so that the general
theorem on caches applies to both.
-/

namespace EspTree.Radio

open Wire

/-- `fmt_mac`, and `sscanf` with its format. -/
def colonNaming : Naming where
  key mac := printHex [58] mac.bytes
  parse s := (scanHex [58] 6 s).map macOf
  parse_key mac := by
    have hscan := scanHex_printHex [58] mac.bytes
    rw [mac.length_bytes] at hscan
    rw [hscan]
    exact congrArg some (Octets.fit_bytes mac)

theorem colonNaming_key_ne_nil (mac : Mac) : colonNaming.key mac ≠ [] := fun h => by
  have hparse := colonNaming.parse_key mac
  rw [h] at hparse
  cases hparse

namespace Peers82xx

variable {δ : Type*} (driver : Driver δ) (self : Mac)

/-- One turn of the loop of `evict_stale_peer_`, on `oldest_age` and `oldest_mac_str`. -/
def older (preferred : Mac) (isProtected : Mac → Bool) (now : UInt32) (oldest : UInt32 × Bytes)
    (entry : Bytes × UInt32) : UInt32 × Bytes :=
  match colonNaming.parse entry.1 with
  | none => oldest
  | some mac =>
    if isProtected mac then oldest
    else if preferred = mac then oldest
    else if entry.1 = colonNaming.key self then oldest
    else if oldest.1 < now - entry.2 then (now - entry.2, entry.1)
    else oldest

def evictStalePeer (t : Table δ) (now : UInt32) (preferred : Mac) (isProtected : Mac → Bool) : Bool × Table δ :=
  let oldest := t.peerLastUsedMs.toList.foldl (older self preferred isProtected now) (0, [])
  if oldest.2.isEmpty then (false, t) else t.drop colonNaming driver oldest.2

/-- `add_peer_`, for an address that is not null. -/
def addPeer (t : Table δ) (now : UInt32) (mac : Mac) (isProtected : Mac → Bool) : Bool × Table δ :=
  let t := if driver.isPeerExist t.driver mac then { t with driver := (driver.delPeer t.driver mac).2 } else t
  t.addNew colonNaming driver (fun t => evictStalePeer driver self t now mac isProtected) now mac

def isPeerProtected (route : Remote.Route) (mac : Mac) : Bool :=
  route.parentValid && route.parentMac == mac || route.preferredParents.any (· == mac)

/-! ## What is given up -/

/-- What the loop may give up, before it looks at the age. -/
def mayGo (preferred : Mac) (isProtected : Mac → Bool) (mac : Mac) : Bool :=
  !isProtected mac && decide (preferred ≠ mac) && decide (mac ≠ self)

/-- `oldest_age` and `oldest_mac_str` for an entry, if there is one yet. -/
def oldestOf (now : UInt32) : Option (Bytes × UInt32) → UInt32 × Bytes
  | none => (0, [])
  | some entry => (now - entry.2, entry.1)

/-- An entry that would do. -/
def aged (preferred : Mac) (isProtected : Mac → Bool) (now : UInt32) (entry : Bytes × UInt32) : Bool :=
  goes colonNaming (mayGo self preferred isProtected) entry && decide (0 < now - entry.2)

section

variable {driver} {self} {peers : δ → Finset Mac} {capacity : ℕ} {t : Table δ} {map : StringMap UInt32}
  {now : UInt32} {mac m : Mac} {isProtected : Mac → Bool}

/-- Names as `fmt_mac` writes them, which read back. -/
def IsNamed (entry : Bytes × UInt32) : Prop := ∃ m, colonNaming.key m = entry.1

/-- One turn of the loop, for an entry that has a name. -/
theorem older_key {preferred : Mac} (oldest : UInt32 × Bytes) (used : UInt32) :
    older self preferred isProtected now oldest (colonNaming.key m, used) =
      if mayGo self preferred isProtected m = true then
        if oldest.1 < now - used then (now - used, colonNaming.key m) else oldest
      else oldest := by
  have hself : colonNaming.key m = colonNaming.key self ↔ m = self :=
    ⟨fun h => colonNaming.key_injective h, congrArg _⟩
  unfold older mayGo
  dsimp only
  rw [colonNaming.parse_key]
  dsimp only
  rw [if_congr hself rfl rfl]
  by_cases hprotected : isProtected m = true
  · rw [if_pos hprotected, hprotected]
    rfl
  · rw [if_neg hprotected, Bool.eq_false_of_not_eq_true hprotected]
    by_cases hpreferred : preferred = m
    · rw [if_pos hpreferred, decide_eq_false (not_not_intro hpreferred)]
      rfl
    · rw [if_neg hpreferred, decide_eq_true hpreferred]
      by_cases hm : m = self
      · rw [if_pos hm, decide_eq_false (not_not_intro hm)]
        rfl
      · rw [if_neg hm, decide_eq_true hm]
        rfl

/-- The choice at an entry is by age, so that it does not matter where the clock has wrapped. -/
theorem older_oldestOf {preferred : Mac} {best : Option (Bytes × UInt32)} {entry : Bytes × UInt32}
    (hnamed : IsNamed entry) (hbest : ∀ old ∈ best, 0 < now - old.2) :
    older self preferred isProtected now (oldestOf now best) entry =
      oldestOf now (if aged self preferred isProtected now entry = true then
        List.argAux (fun b c => (now - c.2).toNat < (now - b.2).toNat) best entry else best) := by
  obtain ⟨key, used⟩ := entry
  obtain ⟨m, rfl⟩ := hnamed
  have hgoes : goes colonNaming (mayGo self preferred isProtected) (colonNaming.key m, used) =
      mayGo self preferred isProtected m := by
    rw [goes, colonNaming.parse_key, Option.any_some]
  rw [older_key, aged, hgoes]
  cases mayGo self preferred isProtected m with
  | false => rfl
  | true =>
    rw [if_pos rfl, Bool.true_and]
    cases best with
    | none =>
      by_cases hage : 0 < now - used
      · rw [decide_eq_true hage, if_pos rfl]
        exact if_pos hage
      · rw [decide_eq_false hage, if_neg Bool.false_ne_true]
        exact if_neg hage
    | some old =>
      have hold : 0 < now - old.2 := hbest old rfl
      by_cases hage : now - old.2 < now - used
      · have hnext : List.argAux (fun b c => (now - c.2).toNat < (now - b.2).toNat) (some old)
            (colonNaming.key m, used) = some (colonNaming.key m, used) := if_pos (UInt32.lt_iff_toNat_lt.mp hage)
        rw [decide_eq_true (UInt32.lt_trans hold hage), if_pos rfl, hnext]
        exact if_pos hage
      · have hkeep : List.argAux (fun b c => (now - c.2).toNat < (now - b.2).toNat) (some old)
            (colonNaming.key m, used) = some old := if_neg fun hlt => hage (UInt32.lt_iff_toNat_lt.mpr hlt)
        rw [hkeep, ite_self]
        exact if_neg hage

theorem mem_argAux {α : Type*} {r : α → α → Prop} [DecidableRel r] {o : Option α} {a x : α}
    (h : x ∈ List.argAux r o a) : x = a ∨ x ∈ o := by
  cases o with
  | none => exact .inl (Option.some.inj h).symm
  | some c =>
    have hcase : (if r a c then some a else some c) = some x := h
    split_ifs at hcase
    · exact .inl (Option.some.inj hcase).symm
    · exact .inr hcase

/-- The loop finds the greatest age above 0. -/
theorem foldl_older {preferred : Mac} {entries : List (Bytes × UInt32)} (best : Option (Bytes × UInt32))
    (hnamed : ∀ entry ∈ entries, IsNamed entry) (hbest : ∀ old ∈ best, 0 < now - old.2) :
    entries.foldl (older self preferred isProtected now) (oldestOf now best) =
      oldestOf now ((entries.filter (aged self preferred isProtected now)).foldl
        (List.argAux fun b c => (now - c.2).toNat < (now - b.2).toNat) best) := by
  induction entries generalizing best with
  | nil => rfl
  | cons entry entries ih =>
    rw [List.foldl_cons, older_oldestOf (hnamed entry List.mem_cons_self) hbest, List.filter_cons,
      ih _ fun entry' hmem => hnamed entry' (List.mem_cons_of_mem _ hmem)]
    · split_ifs
      · rfl
      · rfl
    · intro old hold
      split_ifs at hold with haged
      · have hage : 0 < now - entry.2 := of_decide_eq_true (Bool.and_eq_true_iff.mp haged).2
        rcases mem_argAux hold with rfl | hold
        · exact hage
        · exact hbest old hold
      · exact hbest old hold

/-- A peer that was used later has the greater rank, as the clock shows it now. -/
def rank (now used : UInt32) : ℕ := Clock.period - (now - used).toNat

/-- What is not given up: a peer that is protected, the node itself, and what was used just now. -/
def Kept (self : Mac) (isProtected : Mac → Bool) (now : UInt32) (t : Table δ) (m : Mac) : Prop :=
  isProtected m = true ∨ m = self ∨ t.lastUsed colonNaming m = now

/-- A peer may go unless it is protected, the node itself, or used in this very millisecond. -/
theorem aged_key {used : UInt32} (hne : m ≠ mac) : aged self mac isProtected now (colonNaming.key m, used) = true ↔
    ¬ (isProtected m = true ∨ m = self ∨ used = now) := by
  have hgoes : goes colonNaming (mayGo self mac isProtected) (colonNaming.key m, used) =
      mayGo self mac isProtected m := by
    rw [goes, colonNaming.parse_key, Option.any_some]
  have hage : 0 < now - used ↔ used ≠ now := by
    rw [UInt32.lt_iff_toNat_lt, UInt32.toNat_sub, ne_eq, ← UInt32.toNat_inj]
    have hu := used.toNat_lt
    have hn := now.toNat_lt
    have hz : (0 : UInt32).toNat = 0 := rfl
    omega
  rw [aged, hgoes, mayGo, decide_eq_true (Ne.symm hne), Bool.and_true, Bool.and_eq_true, Bool.and_eq_true,
    Bool.not_eq_true', decide_eq_true_iff, decide_eq_true_iff, hage, not_or, not_or, Bool.not_eq_true, and_assoc]

/-- The loop gives up the peer of the greatest age, if one may go. -/
theorem evicts_evictStalePeer (hdriver : driver.Lawful peers capacity)
    (hnames : Names colonNaming (peers t.driver) t.peerLastUsedMs) (hmac : mac ∉ peers t.driver) :
    t.Evicts colonNaming peers (rank now) (Kept self isProtected now t)
      (evictStalePeer driver self t now mac isProtected) := by
  have hnamed : ∀ entry ∈ t.peerLastUsedMs.toList, IsNamed entry := fun entry hentry => by
    obtain ⟨m, -, hkey⟩ := (hnames entry.1).mp (Option.isSome_iff_exists.mpr ⟨_, StringMap.mem_toList.mp hentry⟩)
    exact ⟨m, hkey⟩
  have hfold : t.peerLastUsedMs.toList.foldl (older self mac isProtected now) (0, []) = oldestOf now
      ((t.peerLastUsedMs.toList.filter (aged self mac isProtected now)).argmax fun entry => (now - entry.2).toNat) :=
    foldl_older none hnamed fun _ h => by cases h
  have hne {m : Mac} (hm : m ∈ peers t.driver) : m ≠ mac := by
    rintro rfl
    exact hmac hm
  -- An entry of a peer that may go is one of those that the loop compares.
  have hcompared {m : Mac} (hm : m ∈ peers t.driver) (hfree : ¬ Kept self isProtected now t m) :
      (colonNaming.key m, t.lastUsed colonNaming m) ∈
        t.peerLastUsedMs.toList.filter (aged self mac isProtected now) := by
    obtain ⟨used, hused⟩ := Option.isSome_iff_exists.mp ((hnames (colonNaming.key m)).mpr ⟨m, hm, rfl⟩)
    have hlast : t.lastUsed colonNaming m = used := by rw [Table.lastUsed, hused, Option.getD_some]
    rw [Kept, hlast] at hfree
    rw [hlast]
    exact List.mem_filter.mpr ⟨StringMap.mem_toList.mpr hused, (aged_key (hne hm)).mpr hfree⟩
  unfold evictStalePeer
  dsimp only
  rw [hfold]
  cases hmax : (t.peerLastUsedMs.toList.filter (aged self mac isProtected now)).argmax
      fun entry => (now - entry.2).toNat with
  | none =>
    refine .inl ⟨if_pos rfl, fun m hm => ?_⟩
    by_contra hfree
    have hmem := hcompared hm hfree
    rw [List.argmax_eq_none.mp hmax] at hmem
    exact List.not_mem_nil hmem
  | some best =>
    obtain ⟨hmem, haged⟩ := List.mem_filter.mp (List.argmax_mem hmax)
    have hsome := StringMap.mem_toList.mp hmem
    obtain ⟨m, hm, hkey⟩ := (hnames best.1).mp (Option.isSome_iff_exists.mpr ⟨_, hsome⟩)
    have hlast : t.lastUsed colonNaming m = best.2 := by rw [Table.lastUsed, hkey, hsome, Option.getD_some]
    have hbest : best = (colonNaming.key m, t.lastUsed colonNaming m) := Prod.ext hkey.symm hlast.symm
    have holdest : (oldestOf now (some best)).2 = colonNaming.key m := hkey.symm
    rw [holdest, if_neg fun h => colonNaming_key_ne_nil m (List.isEmpty_iff.mp h)]
    refine .inr ⟨m, ⟨hm, ?_, fun m' hm' hfree => ?_⟩, ?_⟩
    · rw [hbest] at haged
      exact (aged_key (hne hm)).mp haged
    · have hle := List.le_of_mem_argmax (hcompared hm' hfree) hmax
      rw [hbest] at hle
      exact Nat.sub_le_sub_left hle _
    · exact Table.drop_key hdriver hm

/-- A peer that is there is taken off the list and put on it again. -/
theorem uses_addPeer (hdriver : driver.Lawful peers capacity)
    (hnames : Names colonNaming (peers t.driver) t.peerLastUsedMs) (hcard : (peers t.driver).card ≤ capacity) :
    t.Uses colonNaming peers capacity (rank now) (Kept self isProtected now t) now mac
      (addPeer driver self t now mac isProtected) := by
  unfold addPeer
  dsimp only
  by_cases hmac : mac ∈ peers t.driver
  · rw [if_pos ((hdriver.isPeerExist _ _).mpr hmac)]
    have hdel := (hdriver.delPeer _ _ hmac).2
    have hgone : mac ∉ peers (driver.delPeer t.driver mac).2 := by
      rw [hdel]
      exact Finset.notMem_erase _ _
    have hroom : (peers (driver.delPeer t.driver mac).2).card < capacity := by
      rw [hdel]
      exact (Finset.card_erase_lt_of_mem hmac).trans_le hcard
    generalize hs : ({ t with driver := (driver.delPeer t.driver mac).2 } : Table δ) = s
    have hdriver' : s.driver = (driver.delPeer t.driver mac).2 := hs ▸ rfl
    have hmap : s.peerLastUsedMs = t.peerLastUsedMs := hs ▸ rfl
    rw [← hdriver'] at hdel hgone hroom
    obtain ⟨hadded, hpeers⟩ := Table.addNew_room hdriver hgone hroom
    rw [hadded]
    rw [hdel, Finset.insert_erase hmac] at hpeers
    have hrecords : t.Records colonNaming peers now mac
        (({ s with driver := (driver.addPeer s.driver mac).2 } : Table δ).notePeerActivity colonNaming now mac) :=
      fun m _ => by
        rw [Table.lastUsed_note, Table.lastUsed, hmap]
        rfl
    refine ⟨?_, hrecords, .hit hmac (hrecords.used hpeers hmac), iff_of_true rfl (hpeers ▸ hmac)⟩
    show Names colonNaming (peers (driver.addPeer s.driver mac).2) (s.peerLastUsedMs.insert _ now)
    rw [hpeers, hmap, ← Finset.insert_eq_of_mem hmac]
    exact hnames.insert
  · rw [if_neg fun h => hmac ((hdriver.isPeerExist _ _).mp h)]
    refine Table.uses_addNew hdriver hnames hcard hmac fun s hpeers hmap => ?_
    have hlastUsed : s.lastUsed colonNaming = t.lastUsed colonNaming := by
      funext m
      rw [Table.lastUsed, Table.lastUsed, hmap]
    have hkept : Kept self isProtected now t = Kept self isProtected now s := by
      funext m
      rw [Kept, Kept, hlastUsed]
    rw [hkept]
    exact evicts_evictStalePeer hdriver (by rwa [hpeers, hmap]) (hpeers ▸ hmac)

end

/-- The calls of `add_peer_`: for the sender of a unicast frame and for the broadcast address, when they are not
on the list, and for a new parent. -/
def addingNode {δ π : Type*} (driver : Driver δ) (self : Mac) (isProtected : π → Mac → Bool) : Node δ (Send π) where
  act t e := addPeer driver self t e.now e.mac (isProtected e.view)
  mac := Send.mac
  now := Send.now

section

variable {δ π : Type*} {driver : Driver δ} {self : Mac} {peers : δ → Finset Mac} {capacity : ℕ}
  {isProtected : π → Mac → Bool} {s : Clock.Timed (Table δ) (Mac → ℕ)}

/-- In every run the table knows the driver's peers, and adding a peer gives up what was added least recently of
what is not protected, not the node itself and not of this millisecond, if everything was added less than a
period of the clock ago. -/
theorem peers_lru_wrapping (hdriver : driver.Lawful peers capacity)
    (h : (addingNode driver self isProtected).Reached peers s) :
    Names colonNaming (peers s.state.driver) s.state.peerLastUsedMs ∧ (peers s.state.driver).card ≤ capacity ∧
      ∀ e : ℕ × Send π, (addingNode driver self isProtected).Timely s e →
        (∀ m ∈ peers s.state.driver, e.1 < s.mark m + Clock.period) →
        Recency.Touch capacity (fun m => isProtected e.2.view m = true ∨ m = self ∨ s.mark m = e.1) e.2.mac e.1
          (cacheOf peers s) (cacheOf peers ((addingNode driver self isProtected).step s e)) := by
  have hnode : (addingNode driver self isProtected).Follows colonNaming peers capacity (fun e => rank e.now)
      fun t e => Kept self (isProtected e.view) e.now t := fun _ _ hnames hcard =>
    uses_addPeer hdriver hnames hcard
  have hs := Node.Reached.sound hnode h
  refine ⟨hs.names, hs.card, fun e he hnear => ?_⟩
  have hnow : e.2.now = Clock.reading e.1 := he.2 _ rfl
  have hage {m : Mac} (hm : m ∈ peers s.state.driver) :
      (e.2.now - Clock.reading (s.mark m)).toNat = e.1 - s.mark m := by
    rw [hnow]
    exact Clock.toNat_sub ((hs.past m hm).trans he.1) (hnear m hm)
  refine hs.touch hnode (fun m hm => ?_) fun m hm m' hm' hle => ?_
  · refine or_congr Iff.rfl (or_congr Iff.rfl ?_)
    rw [hs.recorded m hm]
    constructor
    · intro heq
      have hzero := hage hm
      rw [← heq, UInt32.sub_self] at hzero
      have hpast := (hs.past m hm).trans he.1
      have hz : (0 : UInt32).toNat = 0 := rfl
      omega
    · rintro heq
      rw [hnow, heq]
  · have hle' : Clock.period - (e.2.now - Clock.reading (s.mark m)).toNat ≤
        Clock.period - (e.2.now - Clock.reading (s.mark m')).toNat := hle
    rw [hage hm, hage hm'] at hle'
    have hpast := (hs.past m hm).trans he.1
    have hpast' := (hs.past m' hm').trans he.1
    have hnear' := hnear m' hm'
    have hnear'' := hnear m hm
    omega

end

/-- A node whose driver has two places: one peer is added just before the clock wraps and another just after. -/
def roundWrap : Clock.Timed (Table (List Mac)) (Mac → ℕ) :=
  [(Clock.period - 1, ⟨Octets.fit 6 [9], Clock.reading (Clock.period - 1), {}⟩),
    (Clock.period + 5, ⟨Octets.fit 6 [1], Clock.reading (Clock.period + 5), {}⟩)].foldl
    (addingNode (listDriver 2) (Octets.fit 6 [2]) isPeerProtected).step ⟨⟨[], ∅⟩, 0, fun _ => 0⟩

/-- For a third peer the one goes that was added before the wrap, although its reading of the clock is the larger
one. -/
theorem peers_lru_wrapping_roundWrap :
    Names colonNaming {Octets.fit 6 [1], Octets.fit 6 [9]} roundWrap.state.peerLastUsedMs ∧
      Recency.Touch 2 (fun m => isPeerProtected {} m = true ∨ m = Octets.fit 6 [2] ∨ roundWrap.mark m = Clock.period + 9)
        (Octets.fit 6 [4]) (Clock.period + 9) (cacheOf List.toFinset roundWrap)
        (cacheOf List.toFinset ((addingNode (listDriver 2) (Octets.fit 6 [2]) isPeerProtected).step roundWrap
          (Clock.period + 9, ⟨Octets.fit 6 [4], Clock.reading (Clock.period + 9), {}⟩))) ∧
      ((addingNode (listDriver 2) (Octets.fit 6 [2]) isPeerProtected).step roundWrap
        (Clock.period + 9, ⟨Octets.fit 6 [4], Clock.reading (Clock.period + 9), {}⟩)).state.driver.toFinset =
          {Octets.fit 6 [4], Octets.fit 6 [1]} := by
  have hreached : (addingNode (listDriver 2) (Octets.fit 6 [2]) isPeerProtected).Reached List.toFinset roundWrap := by
    refine .next (.next (.start ⟨rfl, rfl⟩) ⟨Nat.zero_le _, ?_⟩) ⟨Nat.le_of_ble_eq_true rfl, ?_⟩
    all_goals exact fun now hnow => (Option.mem_some_iff.mp hnow).symm
  have hpeers : roundWrap.state.driver.toFinset = {Octets.fit 6 [1], Octets.fit 6 [9]} := by decide +kernel
  have hclock : roundWrap.clock = Clock.period + 5 := rfl
  have hmarks : roundWrap.mark (Octets.fit 6 [1]) = Clock.period + 5 ∧
      roundWrap.mark (Octets.fit 6 [9]) = Clock.period - 1 := by decide +kernel
  obtain ⟨hnames, -, htouch⟩ := peers_lru_wrapping (listDriver_lawful 2) hreached
  rw [hpeers] at hnames htouch
  refine ⟨hnames, htouch (Clock.period + 9, ⟨Octets.fit 6 [4], Clock.reading (Clock.period + 9), {}⟩)
    ⟨?_, fun now hnow => (Option.mem_some_iff.mp hnow).symm⟩ fun m hm => ?_, by decide +kernel⟩
  · rw [hclock]
    omega
  · rw [Finset.mem_insert, Finset.mem_singleton] at hm
    obtain rfl | rfl := hm
    · rw [hmarks.1]
      unfold Clock.period
      omega
    · rw [hmarks.2]
      unfold Clock.period
      omega

end Peers82xx

end EspTree.Radio
