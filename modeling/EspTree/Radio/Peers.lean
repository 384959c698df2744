import EspTree.EntityValues
import EspTree.Lib.Clock
import EspTree.Lib.Recency
import EspTree.Lib.StringMap
import EspTree.Remote.State
import Mathlib.Data.List.MinMax

/-!
# The peers of the radio

The driver sends only to addresses on its list of peers, which has few places.  A node adds the receiver of
each frame, remembers when it was last sent to, and gives up a peer when there is no place
(`add_peer_`, `evict_stale_peer_`, `send_frame_result_` of the bridge, `send_frame_` of the remote; the two
differ only in which peers they protect).

The driver is a parameter (`Driver`), and what is relied on is `Driver.Lawful`.  The clock is read once in a
call, and the counters of the air time are left out.
-/

namespace EspTree.Radio

open Wire

/-! ## Names of peers -/

/-- The value of a hexadecimal digit. -/
def hexValue? (c : UInt8) : Option UInt8 :=
  if 48 ≤ c ∧ c ≤ 57 then some (c - 48)
  else if 65 ≤ c ∧ c ≤ 70 then some (c - 55)
  else if 97 ≤ c ∧ c ≤ 102 then some (c - 87)
  else none

/-- What `sscanf` has to find before the next byte. -/
def skip (separator rest : Bytes) : Option Bytes :=
  if separator.isPrefixOf rest then some (rest.drop separator.length) else none

/-- `sscanf` with `%2x` for each byte and `separator` between them, on two digits each: blanks and signs,
which `%2x` takes too, are in no name. -/
def scanHex (separator : Bytes) : Nat → Bytes → Option Bytes
  | 0, _ => some []
  | n + 1, high :: low :: rest =>
    (hexValue? high).bind fun h => (hexValue? low).bind fun l =>
      (if n = 0 then some rest else skip separator rest).bind fun rest =>
        (scanHex separator n rest).map ((16 * h + l) :: ·)
  | _ + 1, _ => none

/-- `snprintf` with `%02X` for each byte and `separator` between them. -/
def printHex (separator : Bytes) : Bytes → Bytes
  | [] => []
  | [b] => digitPair 55 b
  | b :: bytes => digitPair 55 b ++ separator ++ printHex separator bytes

/-- A printed digit is read back. -/
theorem hexValue?_digit {n : UInt8} (hn : n < 16) : hexValue? (digit 55 n) = some n := by
  have hall : ∀ k : Fin 16, hexValue? (digit 55 (UInt8.ofNat k)) = some (UInt8.ofNat k) := by decide
  have hlt : n.toNat < 16 := UInt8.lt_iff_toNat_lt.mp hn
  have hn' := hall ⟨n.toNat, hlt⟩
  rwa [UInt8.ofNat_toNat] at hn'

theorem pair_eq (b : UInt8) : 16 * (b / 16) + b % 16 = b := by
  rw [← UInt8.toNat_inj, UInt8.toNat_add, UInt8.toNat_mul, UInt8.toNat_div, UInt8.toNat_mod]
  have hb := b.toNat_lt
  have hten : (16 : UInt8).toNat = 16 := rfl
  rw [hten]
  omega

/-- What was printed reads back. -/
theorem scanHex_printHex (separator : Bytes) (bytes : Bytes) :
    scanHex separator bytes.length (printHex separator bytes) = some bytes := by
  induction bytes with
  | nil => rfl
  | cons b bytes ih =>
    cases bytes with
    | nil =>
      show scanHex separator 1 [digit 55 (b / 16), digit 55 (b % 16)] = some [b]
      simp [scanHex, hexValue?_digit (div_sixteen_lt b), hexValue?_digit (mod_sixteen_lt b), pair_eq]
    | cons b' bytes =>
      have hprint : printHex separator (b :: b' :: bytes) =
          digit 55 (b / 16) :: digit 55 (b % 16) ::
            (separator ++ printHex separator (b' :: bytes)) := rfl
      have hskip (rest : Bytes) : skip separator (separator ++ rest) = some rest := by
        rw [skip, if_pos (List.isPrefixOf_iff_prefix.mpr (List.prefix_append _ _)), List.drop_left]
      have hmore : ¬ (b' :: bytes).length = 0 := Nat.succ_ne_zero _
      rw [hprint, List.length_cons, scanHex, hexValue?_digit (div_sixteen_lt b), hexValue?_digit (mod_sixteen_lt b),
        Option.bind_some, Option.bind_some, if_neg hmore, hskip, Option.bind_some, ih]
      exact congrArg (fun c => some (c :: b' :: bytes)) (pair_eq b)

/-- How a table names its peers. -/
structure Naming where
  key : Mac → Bytes
  parse : Bytes → Option Mac
  parse_key : ∀ mac, parse (key mac) = some mac

/-- No two peers share a name, since the name gives the address back. -/
theorem Naming.key_injective (naming : Naming) : Function.Injective naming.key := fun mac mac' h =>
  Option.some.inj ((naming.parse_key mac).symm.trans ((congrArg naming.parse h).trans (naming.parse_key mac')))

theorem printHex_nil (bytes : Bytes) : printHex [] bytes = hexText 55 bytes := by
  induction bytes with
  | nil => rfl
  | cons b bytes ih =>
    cases bytes with
    | nil => exact (List.append_nil _).symm
    | cons b' bytes =>
      show digitPair 55 b ++ [] ++ printHex [] (b' :: bytes) = _
      rw [ih, List.append_nil]
      rfl

/-- The bytes of an address, if there are six. -/
def macOf (bytes : Bytes) : Mac := Octets.fit 6 bytes

/-- `mac_hex`, and `parse_mac_hex_`. -/
def hexNaming : Naming where
  key := Bridge.macHex
  parse s := if s.length ≠ 12 then none else (scanHex [] 6 s).map macOf
  parse_key mac := by
    have hlength : ¬ (Bridge.macHex mac).length ≠ 12 := not_not_intro (ValueBridge.length_macHex mac)
    have hscan := scanHex_printHex [] mac.bytes
    rw [printHex_nil, mac.length_bytes] at hscan
    rw [if_neg hlength, ValueBridge.macHex_eq, hscan]
    exact congrArg some (Octets.fit_bytes mac)

/-! ## The driver -/

/-- `esp_now_is_peer_exist`, `esp_now_add_peer` and `esp_now_del_peer`, with what the driver knows; the
booleans say whether a call came back with `ESP_OK`. -/
structure Driver (δ : Type*) where
  isPeerExist : δ → Mac → Bool
  addPeer : δ → Mac → Bool × δ
  delPeer : δ → Mac → Bool × δ

/-- The driver has a list with `capacity` places.  Adding a peer fails if and only if they are all taken, and
a peer that is on the list can be deleted. -/
structure Driver.Lawful {δ : Type*} (driver : Driver δ) (peers : δ → Finset Mac) (capacity : ℕ) : Prop where
  isPeerExist : ∀ d mac, driver.isPeerExist d mac = true ↔ mac ∈ peers d
  addPeer : ∀ d mac, mac ∉ peers d →
    if (peers d).card < capacity then
      (driver.addPeer d mac).1 = true ∧ peers (driver.addPeer d mac).2 = insert mac (peers d)
    else (driver.addPeer d mac).1 = false ∧ peers (driver.addPeer d mac).2 = peers d
  delPeer : ∀ d mac, mac ∈ peers d →
    (driver.delPeer d mac).1 = true ∧ peers (driver.delPeer d mac).2 = (peers d).erase mac

/-! ## The table -/

/-- The driver's list, and `peer_last_used_ms_`. -/
structure Table (δ : Type*) where
  driver : δ
  peerLastUsedMs : StringMap UInt32 := ∅

namespace Table

variable {δ : Type*} (naming : Naming) (driver : Driver δ)

def notePeerActivity (t : Table δ) (now : UInt32) (mac : Mac) : Table δ :=
  { t with peerLastUsedMs := t.peerLastUsedMs.insert (naming.key mac) now }

/-- One turn of the loop of `evict_stale_peer_`: `mayGo` is what its `continue`s leave. -/
def staler (mayGo : Mac → Bool) (best : Option (Bytes × UInt32)) (entry : Bytes × UInt32) :
    Option (Bytes × UInt32) :=
  match naming.parse entry.1 with
  | none => best
  | some mac =>
    if mayGo mac = false then best
    else
      match best with
      | none => some entry
      | some old => if entry.2 < old.2 then some entry else best

/-- The entry is erased, then the peer deleted. -/
def drop (t : Table δ) (key : Bytes) : Bool × Table δ :=
  match naming.parse key with
  | none => (false, { t with peerLastUsedMs := t.peerLastUsedMs.erase key })
  | some mac =>
    ((driver.delPeer t.driver mac).1,
      { driver := (driver.delPeer t.driver mac).2, peerLastUsedMs := t.peerLastUsedMs.erase key })

def evictStalePeer (t : Table δ) (preferred : Mac) (isProtected : Mac → Bool) : Bool × Table δ :=
  let mayGo (mac : Mac) : Bool := decide (mac ≠ preferred) && !isProtected mac
  match t.peerLastUsedMs.toList.foldl (staler naming mayGo) none with
  | none => (false, t)
  | some best => t.drop naming driver best.1

/-- The rest of `add_peer_`, for an address that is not on the driver's list. -/
def addNew (t : Table δ) (evict : Table δ → Bool × Table δ) (now : UInt32) (mac : Mac) : Bool × Table δ :=
  let added := driver.addPeer t.driver mac
  let t := { t with driver := added.2 }
  if added.1 then (true, t.notePeerActivity naming now mac)
  else
    let evicted := evict t
    if evicted.1 = false then (false, evicted.2)
    else
      let added := driver.addPeer evicted.2.driver mac
      let t := { evicted.2 with driver := added.2 }
      if added.1 then (true, t.notePeerActivity naming now mac) else (false, t)

/-- `add_peer_`, for an address that is not null. -/
def addPeer (t : Table δ) (now : UInt32) (mac : Mac) (isProtected : Mac → Bool) : Bool × Table δ :=
  if driver.isPeerExist t.driver mac then (true, t.notePeerActivity naming now mac)
  else t.addNew naming driver (fun t => t.evictStalePeer naming driver mac isProtected) now mac

/-- `send_frame_result_`: whether the frame went to `esp_now_send`. -/
def sendFrame (t : Table δ) (now : UInt32) (mac : Mac) (isProtected : Mac → Bool) : Bool × Table δ :=
  let added := t.addPeer naming driver now mac isProtected
  if added.1 = false then added else (true, added.2.notePeerActivity naming now mac)

end Table

/-- `ESPTreeBridge::is_peer_protected_`. -/
def isPeerProtectedAtBridge (sessions : List Bridge.Session) (mac : Mac) : Bool :=
  sessions.any fun session => session.online && (session.link.nextHopMac == mac || session.leafMac == mac)

/-- `ESPNowLRRemote::is_peer_protected_`. -/
def isPeerProtectedAtRemote (route : Remote.Route) (mac : Mac) : Bool :=
  route.parentValid && route.parentMac == mac || route.preferredParents.any (· == mac) ||
    route.routes.any fun entry => entry.nextHopMac == mac || entry.leafMac == mac

/-! ## What the table knows -/

section

variable {δ : Type*} {naming : Naming} {driver : Driver δ} {peers : δ → Finset Mac} {capacity : ℕ}
  {t t' : Table δ} {map : StringMap UInt32} {now : UInt32} {mac m : Mac}

/-- The names in the map are those of the peers. -/
def Names (naming : Naming) (macs : Finset Mac) (map : StringMap UInt32) : Prop :=
  ∀ key, (map[key]?).isSome = true ↔ ∃ mac ∈ macs, naming.key mac = key

/-- A peer that is noted is named. -/
theorem Names.insert {macs : Finset Mac} (h : Names naming macs map) :
    Names naming (insert mac macs) (map.insert (naming.key mac) now) := by
  intro key
  rw [StringMap.getElem?_insert]
  by_cases hkey : naming.key mac = key
  · rw [if_pos hkey]
    exact iff_of_true rfl ⟨mac, Finset.mem_insert_self _ _, hkey⟩
  · rw [if_neg hkey, h key, Finset.exists_mem_insert]
    exact (or_iff_right hkey).symm

/-- A peer that goes is named no more. -/
theorem Names.erase {macs : Finset Mac} (h : Names naming macs map) :
    Names naming (macs.erase m) (map.erase (naming.key m)) := by
  intro key
  rw [StringMap.getElem?_erase]
  by_cases hkey : naming.key m = key
  · rw [if_pos hkey]
    refine iff_of_false (fun h => by cases h) ?_
    rintro ⟨mac, hmac, rfl⟩
    exact (Finset.mem_erase.mp hmac).1 (naming.key_injective hkey).symm
  · rw [if_neg hkey, h key]
    refine exists_congr fun mac => and_congr_left fun heq => ?_
    rw [Finset.mem_erase]
    refine (and_iff_right ?_).symm
    rintro rfl
    exact hkey heq

/-- The reading that was recorded for an address. -/
def Table.lastUsed (naming : Naming) (t : Table δ) (mac : Mac) : UInt32 :=
  (t.peerLastUsedMs[naming.key mac]?).getD 0

/-- To note a peer changes its own time only. -/
theorem Table.lastUsed_note : (t.notePeerActivity naming now mac).lastUsed naming m =
    if mac = m then now else t.lastUsed naming m := by
  rw [Table.lastUsed, Table.notePeerActivity, StringMap.getElem?_insert]
  by_cases heq : mac = m
  · rw [if_pos heq, if_pos (congrArg naming.key heq), Option.getD_some]
  · rw [if_neg heq, if_neg fun hkey => heq (naming.key_injective hkey)]
    rfl

/-- The table as one that gives up what was used least recently; `rank` is the order in which it takes the
readings. -/
def Table.cache (naming : Naming) (peers : δ → Finset Mac) (rank : UInt32 → ℕ) (t : Table δ) :
    Recency.Cache Mac :=
  ⟨peers t.driver, fun mac => rank (t.lastUsed naming mac)⟩

/-- The peers have the readings that they had, and `mac` has `now`. -/
def Table.Records (naming : Naming) (peers : δ → Finset Mac) (now : UInt32) (mac : Mac) (t t' : Table δ) : Prop :=
  ∀ m ∈ peers t'.driver, t'.lastUsed naming m = if mac = m then now else t.lastUsed naming m

/-- In terms of a cache: the peer is used now, and the others are as they were. -/
theorem Table.Records.used {rank : UInt32 → ℕ} {macs : Finset Mac} (h : t.Records naming peers now mac t')
    (hmacs : peers t'.driver = macs) (hmac : mac ∈ macs) :
    (t.cache naming peers rank).Used macs mac (rank now) (t'.cache naming peers rank) :=
  ⟨hmacs, congrArg rank ((h mac (hmacs ▸ hmac)).trans (if_pos rfl)),
    fun m hm hne => congrArg rank ((h m hm).trans (if_neg hne.symm))⟩

/-- A use of the peer `mac` in the table, and whether it has succeeded. -/
structure Table.Uses (naming : Naming) (peers : δ → Finset Mac) (capacity : ℕ) (rank : UInt32 → ℕ)
    (kept : Mac → Prop) (now : UInt32) (mac : Mac) (t : Table δ) (result : Bool × Table δ) : Prop where
  names : Names naming (peers result.2.driver) result.2.peerLastUsedMs
  recorded : t.Records naming peers now mac result.2
  touch : Recency.Touch capacity kept mac (rank now) (t.cache naming peers rank) (result.2.cache naming peers rank)
  sent : result.1 = true ↔ mac ∈ peers result.2.driver

/-- Recording the use of a peer once more changes nothing. -/
theorem Table.Uses.note {rank : UInt32 → ℕ} {kept : Mac → Prop} {result : Bool × Table δ}
    (h : t.Uses naming peers capacity rank kept now mac result) (hsent : result.1 = true) :
    t.Uses naming peers capacity rank kept now mac (true, result.2.notePeerActivity naming now mac) := by
  have hmem := h.sent.mp hsent
  have hsame (m : Mac) (hm : m ∈ peers result.2.driver) :
      (result.2.notePeerActivity naming now mac).lastUsed naming m = result.2.lastUsed naming m := by
    rw [Table.lastUsed_note, h.recorded m hm]
    split_ifs
    · rfl
    · rfl
  refine ⟨?_, fun m hm => (hsame m hm).trans (h.recorded m hm), ?_, iff_of_true rfl hmem⟩
  · show Names naming (peers result.2.driver) (result.2.peerLastUsedMs.insert (naming.key mac) now)
    rw [← Finset.insert_eq_of_mem hmem]
    exact h.names.insert
  · refine h.touch.congr rfl rfl (fun _ _ => Iff.rfl) (fun _ _ _ _ hle => hle) (fun hm => ?_) fun m hm hne => ?_
    · exact congrArg rank ((hsame mac hm).trans ((h.recorded mac hm).trans (if_pos rfl)))
    · exact congrArg rank ((hsame m hm).trans ((h.recorded m hm).trans (if_neg hne.symm)))

/-! ## Eviction -/

/-- The entries that the loop of `evict_stale_peer_` looks at. -/
def goes (naming : Naming) (mayGo : Mac → Bool) (entry : Bytes × UInt32) : Bool :=
  (naming.parse entry.1).any mayGo

/-- The choice that the loop makes at an entry, as a step of an arg-min. -/
theorem staler_eq {mayGo : Mac → Bool} (best : Option (Bytes × UInt32)) (entry : Bytes × UInt32) :
    Table.staler naming mayGo best entry =
      if goes naming mayGo entry = true then List.argAux (fun b c => b.2.toNat < c.2.toNat) best entry else best := by
  unfold Table.staler goes
  cases naming.parse entry.1 with
  | none => rfl
  | some mac =>
    show (if mayGo mac = false then _ else _) = if mayGo mac = true then _ else _
    cases mayGo mac with
    | false => rfl
    | true =>
      cases best with
      | none => rfl
      | some old => rfl

/-- The loop finds the least recent of the peers that may go. -/
theorem foldl_staler {mayGo : Mac → Bool} (entries : List (Bytes × UInt32)) (best : Option (Bytes × UInt32)) :
    entries.foldl (Table.staler naming mayGo) best =
      (entries.filter (goes naming mayGo)).foldl (List.argAux fun b c => b.2.toNat < c.2.toNat) best := by
  induction entries generalizing best with
  | nil => rfl
  | cons entry entries ih =>
    rw [List.foldl_cons, ih, List.filter_cons, staler_eq]
    split_ifs with hgoes
    · rfl
    · rfl

/-- A peer that may go is seen by the loop. -/
theorem Names.mem_goes {macs : Finset Mac} {mayGo : Mac → Bool} (h : Names naming macs map) (hm : m ∈ macs)
    (hgo : mayGo m = true) :
    ∃ used, map[naming.key m]? = some used ∧ (naming.key m, used) ∈ map.toList.filter (goes naming mayGo) := by
  obtain ⟨used, hused⟩ := Option.isSome_iff_exists.mp ((h (naming.key m)).mpr ⟨m, hm, rfl⟩)
  refine ⟨used, hused, List.mem_filter.mpr ⟨StringMap.mem_toList.mpr hused, ?_⟩⟩
  rw [goes, naming.parse_key, Option.any_some, hgo]

/-- What the loop sees is a peer that may go. -/
theorem Names.of_mem_goes {macs : Finset Mac} {mayGo : Mac → Bool} (h : Names naming macs map)
    {entry : Bytes × UInt32} (hentry : entry ∈ map.toList.filter (goes naming mayGo)) :
    ∃ m ∈ macs, mayGo m = true ∧ naming.key m = entry.1 ∧ map[naming.key m]? = some entry.2 := by
  obtain ⟨hmem, hgo⟩ := List.mem_filter.mp hentry
  have hsome := StringMap.mem_toList.mp hmem
  obtain ⟨m, hm, hkey⟩ := (h entry.1).mp (Option.isSome_iff_exists.mpr ⟨_, hsome⟩)
  rw [goes, ← hkey, naming.parse_key, Option.any_some] at hgo
  exact ⟨m, hm, hgo, hkey, hkey ▸ hsome⟩

/-- `evict_stale_peer_` finds nothing only if nothing may go. -/
theorem eq_none_of_staler {mayGo : Mac → Bool} (h : Names naming (peers t.driver) t.peerLastUsedMs)
    (hnone : t.peerLastUsedMs.toList.foldl (Table.staler naming mayGo) none = none) :
    ∀ m ∈ peers t.driver, mayGo m = false := by
  intro m hm
  by_contra hgo
  obtain ⟨used, -, hmem⟩ := h.mem_goes hm (Bool.eq_true_of_not_eq_false hgo)
  rw [foldl_staler, List.foldl_argAux_eq_none] at hnone
  rw [hnone.1] at hmem
  exact List.not_mem_nil hmem

/-- It finds what was used least recently of what may go. -/
theorem stale_of_staler {mayGo : Mac → Bool} {best : Bytes × UInt32}
    (h : Names naming (peers t.driver) t.peerLastUsedMs)
    (hbest : t.peerLastUsedMs.toList.foldl (Table.staler naming mayGo) none = some best) :
    ∃ m, (t.cache naming peers UInt32.toNat).Stale (fun m => mayGo m = false) m ∧ naming.key m = best.1 := by
  rw [foldl_staler] at hbest
  have hmin : best ∈ List.argmin (fun entry : Bytes × UInt32 => entry.2.toNat)
      (t.peerLastUsedMs.toList.filter (goes naming mayGo)) := hbest
  obtain ⟨m, hm, hgo, hkey, hused⟩ := h.of_mem_goes (List.argmin_mem hmin)
  refine ⟨m, ⟨hm, fun hfalse => ?_, fun m' hm' hfree => ?_⟩, hkey⟩
  · rw [hgo] at hfalse
    cases hfalse
  · obtain ⟨used, hused', hmem⟩ := h.mem_goes hm' (Bool.eq_true_of_not_eq_false hfree)
    show (t.lastUsed naming m).toNat ≤ (t.lastUsed naming m').toNat
    rw [Table.lastUsed, hused, Table.lastUsed, hused']
    have hle := List.le_of_mem_argmin hmem hmin
    exact hle

section

variable (hdriver : driver.Lawful peers capacity)

include hdriver

theorem Table.drop_key (hm : m ∈ peers t.driver) :
    (t.drop naming driver (naming.key m)).1 = true ∧
      peers (t.drop naming driver (naming.key m)).2.driver = (peers t.driver).erase m ∧
      (t.drop naming driver (naming.key m)).2.peerLastUsedMs = t.peerLastUsedMs.erase (naming.key m) := by
  rw [Table.drop, naming.parse_key]
  exact ⟨(hdriver.delPeer _ _ hm).1, (hdriver.delPeer _ _ hm).2, rfl⟩

/-- A table that has lost the peer `m` to make room for `mac`, which is added then. -/
theorem Table.uses_of_drop {rank : UInt32 → ℕ} {kept : Mac → Prop}
    (hnames : Names naming (peers t.driver) t.peerLastUsedMs)
    (hmac : mac ∉ peers t.driver) (hcard : (peers t.driver).card = capacity)
    (hstale : (t.cache naming peers rank).Stale kept m)
    (hdrop : peers t'.driver = (peers t.driver).erase m)
    (hmap : t'.peerLastUsedMs = t.peerLastUsedMs.erase (naming.key m)) :
    (driver.addPeer t'.driver mac).1 = true ∧
      t.Uses naming peers capacity rank kept now mac
        (true, ({ t' with driver := (driver.addPeer t'.driver mac).2 } : Table δ).notePeerActivity naming now mac) := by
  have hm : m ∈ peers t.driver := hstale.mem
  have hmac' : mac ∉ peers t'.driver := by
    rw [hdrop]
    exact fun hmem => hmac (Finset.mem_of_mem_erase hmem)
  have hroom : (peers t'.driver).card < capacity := by
    rw [hdrop, ← hcard]
    exact Finset.card_erase_lt_of_mem hm
  have hadd := hdriver.addPeer t'.driver mac hmac'
  rw [if_pos hroom] at hadd
  have hrecords : t.Records naming peers now mac
      (({ t' with driver := (driver.addPeer t'.driver mac).2 } : Table δ).notePeerActivity naming now mac) := by
    intro m' hm'
    rw [Table.lastUsed_note]
    split_ifs with hnow
    · rfl
    · have hm'' : m' ∈ insert mac ((peers t.driver).erase m) := hdrop ▸ hadd.2 ▸ hm'
      have hother : m' ≠ m := Finset.ne_of_mem_erase ((Finset.mem_insert.mp hm'').resolve_left (Ne.symm hnow))
      show (t'.peerLastUsedMs[naming.key m']?).getD 0 = t.lastUsed naming m'
      rw [hmap, StringMap.getElem?_erase, if_neg fun hkey => hother (naming.key_injective hkey).symm]
      rfl
  refine ⟨hadd.1, ?_, hrecords, .evict hmac hcard.ge hstale (hrecords.used ?_ (Finset.mem_insert_self _ _)),
    iff_of_true rfl ?_⟩
  · show Names naming (peers (driver.addPeer t'.driver mac).2) _
    rw [hadd.2, hdrop]
    exact (hmap ▸ hnames.erase).insert
  · show peers (driver.addPeer t'.driver mac).2 = _
    rw [hadd.2, hdrop]
    rfl
  · show mac ∈ peers (driver.addPeer t'.driver mac).2
    rw [hadd.2]
    exact Finset.mem_insert_self _ _

/-- What `evict_stale_peer_` came to: nothing may go, or what was used least recently of the rest has gone. -/
def Table.Evicts (naming : Naming) (peers : δ → Finset Mac) (rank : UInt32 → ℕ) (kept : Mac → Prop) (t : Table δ)
    (result : Bool × Table δ) : Prop :=
  result = (false, t) ∧ (∀ m ∈ peers t.driver, kept m) ∨
    ∃ m, (t.cache naming peers rank).Stale kept m ∧ result.1 = true ∧
      peers result.2.driver = (peers t.driver).erase m ∧
      result.2.peerLastUsedMs = t.peerLastUsedMs.erase (naming.key m)

/-- The readings are taken in their own order. -/
theorem Table.evicts_evictStalePeer (isProtected : Mac → Bool)
    (hnames : Names naming (peers t.driver) t.peerLastUsedMs) (hmac : mac ∉ peers t.driver) :
    t.Evicts naming peers UInt32.toNat (fun m => isProtected m = true)
      (t.evictStalePeer naming driver mac isProtected) := by
  have hgo {m : Mac} (hm : m ∈ peers t.driver) :
      (decide (m ≠ mac) && !isProtected m) = false ↔ isProtected m = true := by
    have hne : m ≠ mac := by
      rintro rfl
      exact hmac hm
    rw [decide_eq_true hne, Bool.true_and, Bool.not_eq_false']
  unfold Table.evictStalePeer
  dsimp only
  split
  next hnone => exact .inl ⟨rfl, fun m hm => (hgo hm).mp (eq_none_of_staler hnames hnone m hm)⟩
  next best hbest =>
    obtain ⟨m, hstale, hkey⟩ := stale_of_staler hnames hbest
    rw [← hkey]
    refine .inr ⟨m, ⟨hstale.mem, fun h => hstale.free ((hgo hstale.mem).mpr h), fun m' hm' hfree => ?_⟩,
      Table.drop_key hdriver hstale.mem⟩
    exact hstale.first m' hm' fun h => hfree ((hgo hm').mp h)

/-- Where there is a place, nobody goes. -/
theorem Table.addNew_room {evict : Table δ → Bool × Table δ} (hmac : mac ∉ peers t.driver)
    (hroom : (peers t.driver).card < capacity) :
    t.addNew naming driver evict now mac =
        (true, ({ t with driver := (driver.addPeer t.driver mac).2 } : Table δ).notePeerActivity naming now mac) ∧
      peers (driver.addPeer t.driver mac).2 = insert mac (peers t.driver) := by
  have hadd := hdriver.addPeer t.driver mac hmac
  rw [if_pos hroom] at hadd
  rw [Table.addNew]
  simp only [hadd.1, if_true]
  exact ⟨trivial, hadd.2⟩

/-- Adding a peer is a use of it in a table that gives up what was used least recently. -/
theorem Table.uses_addNew {rank : UInt32 → ℕ} {kept : Mac → Prop} {evict : Table δ → Bool × Table δ}
    (hnames : Names naming (peers t.driver) t.peerLastUsedMs) (hcard : (peers t.driver).card ≤ capacity)
    (hmac : mac ∉ peers t.driver)
    (hevict : ∀ s : Table δ, peers s.driver = peers t.driver → s.peerLastUsedMs = t.peerLastUsedMs →
      s.Evicts naming peers rank kept (evict s)) :
    t.Uses naming peers capacity rank kept now mac (t.addNew naming driver evict now mac) := by
  by_cases hroom : (peers t.driver).card < capacity
  · obtain ⟨hadded, hpeers⟩ := Table.addNew_room hdriver hmac hroom
    rw [hadded]
    have hrecords : t.Records naming peers now mac
        (({ t with driver := (driver.addPeer t.driver mac).2 } : Table δ).notePeerActivity naming now mac) :=
      fun _ _ => Table.lastUsed_note
    refine ⟨?_, hrecords, .room hmac hroom (hrecords.used hpeers (Finset.mem_insert_self _ _)),
      iff_of_true rfl ?_⟩
    · show Names naming (peers (driver.addPeer t.driver mac).2) _
      rw [hpeers]
      exact hnames.insert
    · show mac ∈ peers (driver.addPeer t.driver mac).2
      rw [hpeers]
      exact Finset.mem_insert_self _ _
  · -- The driver has no place: `s` is the table as `evict_stale_peer_` finds it.
    have hadd := hdriver.addPeer t.driver mac hmac
    rw [if_neg hroom] at hadd
    rw [Table.addNew]
    simp only [hadd.1, Bool.false_eq_true, if_false]
    generalize hs : ({ t with driver := (driver.addPeer t.driver mac).2 } : Table δ) = s
    have hmap : s.peerLastUsedMs = t.peerLastUsedMs := hs ▸ rfl
    have hpeers : peers s.driver = peers t.driver := hs ▸ hadd.2
    have hnames' : Names naming (peers s.driver) s.peerLastUsedMs := by rwa [hpeers, hmap]
    have hmac' : mac ∉ peers s.driver := hpeers ▸ hmac
    have hlastUsed : s.lastUsed naming = t.lastUsed naming := by
      funext m
      rw [Table.lastUsed, Table.lastUsed, hmap]
    have hcache : s.cache naming peers rank = t.cache naming peers rank := by
      rw [Table.cache, Table.cache, hpeers, hlastUsed]
    rcases hevict s hpeers hmap with ⟨heq, hall⟩ | ⟨m, hstale, hdone, hdropped, herased⟩
    · rw [heq, if_pos rfl]
      refine ⟨hnames', fun m hm => ?_, ?_, iff_of_false Bool.false_ne_true hmac'⟩
      · rw [hlastUsed, if_neg]
        rintro rfl
        exact hmac' hm
      rw [hcache]
      exact .full hmac (not_lt.mp hroom) (fun m hm => hall m (hpeers ▸ hm)) rfl fun _ _ => rfl
    · have hfull : (peers s.driver).card = capacity := hpeers ▸ le_antisymm hcard (not_lt.mp hroom)
      have huses : _ ∧ s.Uses naming peers capacity rank kept now mac _ :=
        Table.uses_of_drop hdriver hnames' hmac' hfull hstale hdropped herased
      rw [if_neg (by rw [hdone]; exact fun h => by cases h), if_pos huses.1]
      refine ⟨huses.2.names, fun m hm => ?_, ?_, huses.2.sent⟩
      · rw [← hlastUsed]
        exact huses.2.recorded m hm
      · rw [← hcache]
        exact huses.2.touch

/-- `add_peer_` uses the cache as one with `capacity` places that gives up the least recent. -/
theorem Table.uses_addPeer (isProtected : Mac → Bool) (hnames : Names naming (peers t.driver) t.peerLastUsedMs)
    (hcard : (peers t.driver).card ≤ capacity) :
    t.Uses naming peers capacity UInt32.toNat (fun m => isProtected m = true) now mac
      (t.addPeer naming driver now mac isProtected) := by
  by_cases hmac : mac ∈ peers t.driver
  · rw [Table.addPeer, if_pos ((hdriver.isPeerExist _ _).mpr hmac)]
    have hrecords : t.Records naming peers now mac (t.notePeerActivity naming now mac) :=
      fun _ _ => Table.lastUsed_note
    refine ⟨?_, hrecords, .hit hmac (hrecords.used rfl hmac), iff_of_true rfl hmac⟩
    show Names naming (peers t.driver) (t.peerLastUsedMs.insert (naming.key mac) now)
    rw [← Finset.insert_eq_of_mem hmac]
    exact hnames.insert
  · rw [Table.addPeer, if_neg fun h => hmac ((hdriver.isPeerExist _ _).mp h)]
    refine Table.uses_addNew hdriver hnames hcard hmac fun s hpeers hmap => ?_
    exact Table.evicts_evictStalePeer hdriver isProtected (by rwa [hpeers, hmap]) (hpeers ▸ hmac)

/-- So is sending a frame to it. -/
theorem Table.uses_sendFrame (isProtected : Mac → Bool) (hnames : Names naming (peers t.driver) t.peerLastUsedMs)
    (hcard : (peers t.driver).card ≤ capacity) :
    t.Uses naming peers capacity UInt32.toNat (fun m => isProtected m = true) now mac
      (t.sendFrame naming driver now mac isProtected) := by
  have huses : t.Uses naming peers capacity UInt32.toNat _ now mac _ :=
    Table.uses_addPeer hdriver isProtected hnames hcard
  unfold Table.sendFrame
  dsimp only
  split_ifs with hsent
  · exact huses
  · exact huses.note (Bool.eq_true_of_not_eq_false hsent)

end

end

/-! ## Runs in time -/

section

variable {δ : Type*} {ε : Type*}

/-- A node that uses peers: what its table does at an event, the peer that is used then and the clock's
reading. -/
structure Node (δ ε : Type*) where
  act : Table δ → ε → Bool × Table δ
  mac : ε → Mac
  now : ε → UInt32

variable (node : Node δ ε)

/-- The time at which each peer was last used. -/
def Node.noteUse (t : Table δ) (e : ℕ × ε) (_ : Table δ) (lastUse : Mac → ℕ) : Mac → ℕ :=
  if (node.act t e.2).1 then Function.update lastUse (node.mac e.2) e.1 else lastUse

abbrev Node.step : Clock.Timed (Table δ) (Mac → ℕ) → ℕ × ε → Clock.Timed (Table δ) (Mac → ℕ) :=
  Clock.Timed.step (fun t e => (node.act t e).2) node.noteUse

abbrev Node.Timely : Clock.Timed (Table δ) (Mac → ℕ) → ℕ × ε → Prop :=
  Clock.Timed.Timely fun e => some (node.now e)

/-- The driver has been initialised, and nothing has been sent. -/
structure Init (peers : δ → Finset Mac) (s : Clock.Timed (Table δ) (Mac → ℕ)) : Prop where
  peers : peers s.state.driver = ∅
  map : s.state.peerLastUsedMs = ∅

abbrev Node.Reached (peers : δ → Finset Mac) : Clock.Timed (Table δ) (Mac → ℕ) → Prop :=
  Transition.Reachable (Init peers) node.Timely node.step

/-- The table under the true times. -/
def cacheOf (peers : δ → Finset Mac) (s : Clock.Timed (Table δ) (Mac → ℕ)) : Recency.Cache Mac :=
  ⟨peers s.state.driver, s.mark⟩

/-- The names are those of the peers, of which there are not too many, and what was recorded is the reading of
the last use. -/
structure Sound (naming : Naming) (peers : δ → Finset Mac) (capacity : ℕ)
    (s : Clock.Timed (Table δ) (Mac → ℕ)) : Prop where
  names : Names naming (peers s.state.driver) s.state.peerLastUsedMs
  card : (peers s.state.driver).card ≤ capacity
  recorded : ∀ m ∈ peers s.state.driver, s.state.lastUsed naming m = Clock.reading (s.mark m)
  past : ∀ m ∈ peers s.state.driver, s.mark m ≤ s.clock

variable {node} {naming : Naming} {peers : δ → Finset Mac} {capacity : ℕ}
  {rank : ε → UInt32 → ℕ} {kept : Table δ → ε → Mac → Prop} {s : Clock.Timed (Table δ) (Mac → ℕ)} {e : ℕ × ε}

/-- Every event is a use of its peer, by the readings. -/
def Node.Follows (node : Node δ ε) (naming : Naming) (peers : δ → Finset Mac) (capacity : ℕ)
    (rank : ε → UInt32 → ℕ) (kept : Table δ → ε → Mac → Prop) : Prop :=
  ∀ (t : Table δ) (e : ε), Names naming (peers t.driver) t.peerLastUsedMs → (peers t.driver).card ≤ capacity →
    t.Uses naming peers capacity (rank e) (kept t e) (node.now e) (node.mac e) (node.act t e)

theorem Sound.init (h : Init peers s) : Sound naming peers capacity s := by
  have hnone {m : Mac} (hm : m ∈ peers s.state.driver) : False := by
    rw [h.peers] at hm
    exact Finset.notMem_empty m hm
  refine ⟨fun key => ?_, ?_, fun m hm => (hnone hm).elim, fun m hm => (hnone hm).elim⟩
  · rw [h.map, StringMap.getElem?_empty]
    exact iff_of_false (fun h => by cases h) fun ⟨mac, hmac, _⟩ => hnone hmac
  · rw [h.peers]
    exact Nat.zero_le _

variable (hnode : node.Follows naming peers capacity rank kept)

include hnode

/-- Every event keeps the table sound. -/
theorem Sound.step (hs : Sound naming peers capacity s) (he : node.Timely s e) :
    Sound naming peers capacity (node.step s e) := by
  have huses := hnode s.state e.2 hs.names hs.card
  have hnow : node.now e.2 = Clock.reading e.1 := he.2 _ rfl
  have hmark (m : Mac) : (node.step s e).mark m =
      if (node.act s.state e.2).1 = true ∧ m = node.mac e.2 then e.1 else s.mark m := by
    show (if (node.act s.state e.2).1 = true then Function.update s.mark (node.mac e.2) e.1 else s.mark) m = _
    by_cases hsent : (node.act s.state e.2).1 = true
    · rw [if_pos hsent, Function.update_apply]
      exact if_congr (and_iff_right hsent).symm rfl rfl
    · rw [if_neg hsent, if_neg fun h => hsent h.1]
  have hold {m : Mac} (hm : m ∈ peers (node.act s.state e.2).2.driver) (hne : m ≠ node.mac e.2) :
      m ∈ peers s.state.driver := (Finset.mem_insert.mp (huses.touch.subset hm)).resolve_left hne
  refine ⟨huses.names, huses.touch.card_le hs.card, fun m hm => ?_, fun m hm => ?_⟩
  · refine (huses.recorded m hm).trans ?_
    rw [hmark]
    by_cases hmac : m = node.mac e.2
    · rw [if_pos hmac.symm, if_pos ⟨huses.sent.mpr (hmac ▸ hm), hmac⟩, hnow]
    · rw [if_neg (Ne.symm hmac), if_neg fun h => hmac h.2]
      exact hs.recorded m (hold hm hmac)
  · rw [hmark]
    split_ifs with h
    · exact le_rfl
    · have hne : m ≠ node.mac e.2 := fun heq => h ⟨huses.sent.mpr (heq ▸ hm), heq⟩
      exact (hs.past m (hold hm hne)).trans he.1

/-- The table is sound in every state that is reached. -/
theorem Node.Reached.sound (h : node.Reached peers s) : Sound naming peers capacity s := by
  induction h with
  | start hinit => exact .init hinit
  | next _ he ih => exact ih.step hnode he

/-- When the readings are in the order of the times, every event is a use by the times. -/
theorem Sound.touch (hs : Sound naming peers capacity s) {kept' : Mac → Prop}
    (hkept : ∀ m ∈ peers s.state.driver, kept s.state e.2 m ↔ kept' m)
    (horder : ∀ m ∈ peers s.state.driver, ∀ m' ∈ peers s.state.driver,
      rank e.2 (Clock.reading (s.mark m)) ≤ rank e.2 (Clock.reading (s.mark m')) → s.mark m ≤ s.mark m') :
    Recency.Touch capacity kept' (node.mac e.2) e.1 (cacheOf peers s) (cacheOf peers (node.step s e)) := by
  have huses := hnode s.state e.2 hs.names hs.card
  refine huses.touch.congr rfl rfl hkept (fun m hm m' hm' hle => ?_) (fun hm => ?_) fun m _ hne => ?_
  · refine horder m hm m' hm' ?_
    rw [← hs.recorded m hm, ← hs.recorded m' hm']
    exact hle
  · show (if (node.act s.state e.2).1 = true then Function.update s.mark (node.mac e.2) e.1 else s.mark) _ = _
    rw [if_pos (huses.sent.mpr hm), Function.update_self]
  · show (if (node.act s.state e.2).1 = true then Function.update s.mark (node.mac e.2) e.1 else s.mark) _ = _
    split_ifs
    · exact Function.update_of_ne hne _ _
    · rfl

end

/-! ## Bridge and remote -/

/-- A frame goes out to `mac`; `view` is what the node protects its peers by. -/
structure Send (π : Type*) where
  mac : Mac
  now : UInt32
  view : π

/-- A bridge (with `isPeerProtectedAtBridge`) or a remote (with `isPeerProtectedAtRemote`). -/
def sendingNode {δ π : Type*} (driver : Driver δ) (isProtected : π → Mac → Bool) : Node δ (Send π) where
  act t e := t.sendFrame hexNaming driver e.now e.mac (isProtected e.view)
  mac := Send.mac
  now := Send.now

section

variable {δ π : Type*} {driver : Driver δ} {peers : δ → Finset Mac} {capacity : ℕ} {isProtected : π → Mac → Bool}
  {s : Clock.Timed (Table δ) (Mac → ℕ)}

/-- In every run the table knows the driver's peers, and sending a frame gives up what was sent to least
recently of what is not protected, while the recorded times lie in one period of the clock.  The frame goes out
unless everything is protected. -/
theorem peers_lru (hdriver : driver.Lawful peers capacity)
    (h : (sendingNode driver isProtected).Reached peers s) :
    Names hexNaming (peers s.state.driver) s.state.peerLastUsedMs ∧ (peers s.state.driver).card ≤ capacity ∧
      ∀ e : ℕ × Send π,
        (((sendingNode driver isProtected).act s.state e.2).1 = true ↔
          e.2.mac ∈ peers s.state.driver ∨ (peers s.state.driver).card < capacity ∨
            ∃ m ∈ peers s.state.driver, isProtected e.2.view m = false) ∧
        ((∀ m ∈ peers s.state.driver, ∀ m' ∈ peers s.state.driver,
            s.mark m / Clock.period = s.mark m' / Clock.period) →
          Recency.Touch capacity (fun m => isProtected e.2.view m = true) e.2.mac e.1 (cacheOf peers s)
            (cacheOf peers ((sendingNode driver isProtected).step s e))) := by
  have hnode : (sendingNode driver isProtected).Follows hexNaming peers capacity (fun _ => UInt32.toNat)
      fun _ e m => isProtected e.view m = true := fun t e hnames hcard =>
    Table.uses_sendFrame hdriver (isProtected e.view) hnames hcard
  have hs := Node.Reached.sound hnode h
  refine ⟨hs.names, hs.card, fun e => ⟨?_, fun haligned => ?_⟩⟩
  · have huses := hnode s.state e.2 hs.names hs.card
    refine huses.sent.trans (huses.touch.mem_iff.trans ?_)
    refine or_congr Iff.rfl (or_congr Iff.rfl (exists_congr fun m => and_congr Iff.rfl ?_))
    exact Bool.not_eq_true _ ▸ Iff.rfl
  · refine hs.touch hnode (fun _ _ => Iff.rfl) fun m hm m' hm' hle => ?_
    exact (Clock.le_iff_of_period (haligned m hm m' hm')).mp (UInt32.le_iff_toNat_le.mpr hle)

end

/-! ### A driver -/

/-- A driver that keeps its peers in a list. -/
def listDriver (capacity : ℕ) : Driver (List Mac) where
  isPeerExist d mac := decide (mac ∈ d)
  addPeer d mac := if d.toFinset.card < capacity then (true, mac :: d) else (false, d)
  delPeer d mac := (decide (mac ∈ d), d.filter (· ≠ mac))

/-- A list with so many places is a driver as the theorems ask for. -/
theorem listDriver_lawful (capacity : ℕ) : (listDriver capacity).Lawful List.toFinset capacity := by
  refine ⟨fun d mac => ?_, fun d mac hmac => ?_, fun d mac hmac => ⟨?_, ?_⟩⟩
  · exact decide_eq_true_iff.trans List.mem_toFinset.symm
  · unfold listDriver
    dsimp only
    split_ifs
    · exact ⟨rfl, List.toFinset_cons⟩
    · exact ⟨rfl, rfl⟩
  · exact decide_eq_true (List.mem_toFinset.mp hmac)
  · ext m
    unfold listDriver
    dsimp only
    rw [List.mem_toFinset, List.mem_filter, Finset.mem_erase, List.mem_toFinset]
    simp [and_comm]

/-- A node whose driver has three places has sent to a peer and then to two others. -/
def threeSent {π : Type*} (isProtected : π → Mac → Bool) (view : π) : Clock.Timed (Table (List Mac)) (Mac → ℕ) :=
  [(3, ⟨Octets.fit 6 [9], 3, view⟩), (5, ⟨Octets.fit 6 [1], 5, view⟩), (7, ⟨Octets.fit 6 [2], 7, view⟩)].foldl
    (sendingNode (listDriver 3) isProtected).step ⟨⟨[], ∅⟩, 0, fun _ => 0⟩

/-- It sends to a fourth: the first peer stays, which it protects, and of the two others the one goes that was sent to
before the other. -/
def GivesUpSecond {π : Type*} (isProtected : π → Mac → Bool) (view : π) : Prop :=
  Names hexNaming {Octets.fit 6 [2], Octets.fit 6 [1], Octets.fit 6 [9]}
      (threeSent isProtected view).state.peerLastUsedMs ∧
    ((sendingNode (listDriver 3) isProtected).act (threeSent isProtected view).state
      ⟨Octets.fit 6 [4], 11, view⟩).1 = true ∧
    Recency.Touch 3 (fun m => isProtected view m = true) (Octets.fit 6 [4]) 11
      (cacheOf List.toFinset (threeSent isProtected view))
      (cacheOf List.toFinset ((sendingNode (listDriver 3) isProtected).step (threeSent isProtected view)
        (11, ⟨Octets.fit 6 [4], 11, view⟩))) ∧
    ((sendingNode (listDriver 3) isProtected).step (threeSent isProtected view)
      (11, ⟨Octets.fit 6 [4], 11, view⟩)).state.driver.toFinset = {Octets.fit 6 [4], Octets.fit 6 [2], Octets.fit 6 [9]}

/-- A bridge with a leaf that is online, and a remote with a parent. -/
theorem peers_lru_threeSent :
    GivesUpSecond isPeerProtectedAtBridge [{ leafMac := Octets.fit 6 [9], online := true }] ∧
      GivesUpSecond isPeerProtectedAtRemote { parentMac := Octets.fit 6 [9], parentValid := true } := by
  have hone {π : Type} {isProtected : π → Mac → Bool} {view : π} (hfree : isProtected view (Octets.fit 6 [1]) = false)
      (hpeers : (threeSent isProtected view).state.driver.toFinset =
        {Octets.fit 6 [2], Octets.fit 6 [1], Octets.fit 6 [9]})
      (hmark : (threeSent isProtected view).mark (Octets.fit 6 [2]) / Clock.period = 0 ∧
        (threeSent isProtected view).mark (Octets.fit 6 [1]) / Clock.period = 0 ∧
        (threeSent isProtected view).mark (Octets.fit 6 [9]) / Clock.period = 0)
      (hlast : ((sendingNode (listDriver 3) isProtected).step (threeSent isProtected view)
        (11, ⟨Octets.fit 6 [4], 11, view⟩)).state.driver.toFinset =
          {Octets.fit 6 [4], Octets.fit 6 [2], Octets.fit 6 [9]}) : GivesUpSecond isProtected view := by
    have hreached : (sendingNode (listDriver 3) isProtected).Reached List.toFinset (threeSent isProtected view) := by
      refine .next (.next (.next (.start ⟨rfl, rfl⟩) ⟨?_, ?_⟩) ⟨?_, ?_⟩) ⟨?_, ?_⟩
      case refine_1 | refine_3 | refine_5 => exact Nat.le_of_ble_eq_true rfl
      all_goals exact fun now hnow => (Option.mem_some_iff.mp hnow).symm
    obtain ⟨hnames, -, huse⟩ := peers_lru (listDriver_lawful 3) hreached
    obtain ⟨hsent, htouch⟩ := huse (11, ⟨Octets.fit 6 [4], 11, view⟩)
    rw [hpeers] at hnames hsent htouch
    have hperiod : ∀ m ∈ ({Octets.fit 6 [2], Octets.fit 6 [1], Octets.fit 6 [9]} : Finset Mac),
        (threeSent isProtected view).mark m / Clock.period = 0 := by
      simpa only [Finset.mem_insert, Finset.mem_singleton, forall_eq_or_imp, forall_eq] using hmark
    refine ⟨hnames, hsent.mpr (.inr (.inr ⟨Octets.fit 6 [1], by decide, hfree⟩)), htouch fun m hm m' hm' => ?_, hlast⟩
    rw [hperiod m hm, hperiod m' hm']
  exact ⟨hone (by decide) (by decide +kernel) (by decide +kernel) (by decide +kernel),
    hone (by decide) (by decide +kernel) (by decide +kernel) (by decide +kernel)⟩

end EspTree.Radio
