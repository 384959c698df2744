import EspTree.Bridge.State
import Mathlib.Data.List.Sort

/-!
# Eviction of sessions

All sessions of the bridge, and `evict_sessions_for_ram_`, which takes them out in the order of their last contact
while the heap is low.  The sort is any that `std::sort` may be, as it leaves open how it orders equal times; the
heap is a sequence of readings.

The order is kept and no session is taken below the number to protect (`Outcome.Orderly`, `Outcome.Protects`).
But `sessions_.size() - evicted_count` counts each session twice that has gone, so that the loop may end with
more sessions than it is to protect, and the candidates have room for `MAX_SESSIONS` only, which is not checked.
`meets_iff` says exactly when that shows.

`loop` calls it once in a while and then takes out sessions that are offline as long as there are more than
`MAX_SESSIONS`.  `cleanup_bounded` says what that leaves, and that it does not come to it when the heap is low.
-/

namespace EspTree

open Wire Bridge

namespace Eviction

def maxSessions : Nat := 128

def minSessionsToProtect : Nat := 8

def ramEvictionBufferBytes : UInt32 := 10240

def macToKey (mac : Mac) : Nat := leDecode mac.bytes

/-- The key of a session in `sessions_`. -/
def key (x : Session) : Nat := macToKey x.leafMac

/-- What is published for the leaf of a session. -/
inductive Event
  | availability (mac : Mac) (online : Bool) (reason : Reason)
  | topologyChanged (mac : Mac)
  | clearEntities (mac : Mac) (entities : List EntitySchema)

/-- `sessions_`, where no two sessions share a key, with the caches. -/
structure Table where
  sessions : List Session := []
  nodup : (sessions.map key).Nodup := by exact List.nodup_nil
  schemaCache : List (Bytes × Cached) := []
  schemaHashCache : List (Bytes × Octets 32) := []
  events : List Event := []

namespace Table

variable (t : Table)

def find (k : Nat) : Option Session := t.sessions.find? (key · = k)

/-- `ensure_session_`: nothing bounds how many there are. -/
def ensureSession (mac : Mac) : Table :=
  if h : macToKey mac ∈ t.sessions.map key then t
  else
    { t with
      sessions := { leafMac := mac } :: t.sessions
      nodup := List.nodup_cons.2 ⟨h, t.nodup⟩ }

/-- The session is published as gone, and erased with what is cached about it. -/
def evict (x : Session) : Table :=
  { sessions := t.sessions.filter (key · ≠ key x)
    nodup := t.nodup.sublist (List.filter_sublist.map key)
    schemaCache := t.schemaCache.filter (·.1 != x.cacheKey)
    schemaHashCache := t.schemaHashCache.filter (·.1 != x.cacheKey)
    events := t.events ++ (if x.online then [.availability x.leafMac false .evicted] else []) ++
      [.topologyChanged x.leafMac, .clearEntities x.leafMac x.schema.entities] }

end Table

/-- An entry of `candidates`. -/
abbrev Candidate := Nat × UInt32

/-- What is known of a session there. -/
def candidate (x : Session) : Candidate := (key x, x.link.lastSeenUptimeS)

/-- What `std::sort` may do with the candidates: it says nothing about the order of equal ones. -/
structure StdSort where
  sort : List Candidate → List Candidate
  perm : ∀ cs, (sort cs).Perm cs
  sorted : ∀ cs, (sort cs).Pairwise (·.2 ≤ ·.2)

/-- The heap during a call: what each reading of the free bytes gives, and whether the first is below the share
of `RAM_WARNING_PCT` or `RAM_CRITICAL_PCT`. -/
structure Ram where
  free : Nat → UInt32
  low : Bool

def hasActive (x : Session) : Bool := !x.stateAssemblies.isEmpty || !x.schemaAssemblies.isEmpty

/-- The candidates, written one after the other: `none` is a write outside the array. -/
def fillCandidates : List Session → Nat → Option (List Candidate)
  | [], _ => some []
  | x :: xs, count =>
    if count < maxSessions then (fillCandidates xs (count + 1)).map (candidate x :: ·) else none

/-- The loop.  `evicted` and `skipped` are a history, which nothing reads. -/
structure Run where
  table : Table
  evictedCount : Nat := 0
  evicted : List Session := []
  skipped : List Session := []

/-- Why a call ends. -/
inductive Stop
  /-- The heap was not low. -/
  | plenty
  /-- A reading has reached the target. -/
  | reached
  /-- The number of sessions is to be protected. -/
  | shielded
  /-- There is no candidate left. -/
  | ended
  deriving DecidableEq

/-- The heap may still be below the target. -/
def Stop.Short (s : Stop) : Prop := s = .shielded ∨ s = .ended

/-- What a call has done. -/
structure Outcome extends Run where
  stop : Stop

/-- What the function returns. -/
def Outcome.returned (o : Outcome) : Bool := 0 < o.evictedCount

section

variable (ram : Ram) (aggressive : Bool)

/-- `target_free`. -/
def Ram.target : UInt32 := ram.free 0 + ramEvictionBufferBytes

/-- The session may be evicted. -/
def evictable (x : Session) : Bool := aggressive || !hasActive x

/-- The rest of the loop, from the candidate `i` on. -/
def evictLoop : List Candidate → Nat → Run → Outcome
  | [], _, r => ⟨r, .ended⟩
  | c :: cs, i, r =>
    if ram.target ≤ ram.free (i + 1) then ⟨r, .reached⟩
    else if (r.table.sessions.length + 2 ^ 32 - r.evictedCount) % 2 ^ 32 ≤ minSessionsToProtect then
      ⟨r, .shielded⟩
    else
      match r.table.find c.1 with
      | none => evictLoop cs (i + 1) r
      | some x =>
        if !aggressive && hasActive x then evictLoop cs (i + 1) { r with skipped := r.skipped ++ [x] }
        else
          evictLoop cs (i + 1)
            { r with
              table := r.table.evict x
              evictedCount := r.evictedCount + 1
              evicted := r.evicted ++ [x] }

/-- `evict_sessions_for_ram_`: `none` where it writes outside the array of candidates. -/
def evictSessionsForRam (sort : StdSort) (t : Table) : Option Outcome :=
  if ram.low then
    (fillCandidates t.sessions 0).map fun cs => evictLoop ram aggressive (sort.sort cs) 0 { table := t }
  else some ⟨{ table := t }, .plenty⟩

end

/-! ## The order of contact -/

/-- What is found under a key is a session of the table with that key. -/
theorem Table.mem_of_find {t : Table} {k : Nat} {x : Session} (h : t.find k = some x) :
    x ∈ t.sessions ∧ key x = k :=
  ⟨List.mem_of_find?_eq_some h, by simpa using List.find?_some h⟩

theorem key_inj {l : List Session} (hl : (l.map key).Nodup) {x y : Session} (hx : x ∈ l) (hy : y ∈ l)
    (hkey : key x = key y) : x = y :=
  List.inj_on_of_nodup_map hl hx hy hkey

/-- Every session of the table is found under its key. -/
theorem Table.find_key {t : Table} {x : Session} (hx : x ∈ t.sessions) : t.find (key x) = some x := by
  cases hfind : t.find (key x) with
  | none => exact absurd (List.find?_eq_none.1 hfind x hx) (by simp)
  | some y =>
    obtain ⟨hy, hkey⟩ := t.mem_of_find hfind
    rw [key_inj t.nodup hy hx hkey]

section

variable (sort : StdSort) (t : Table)

/-- The sessions in the order of the candidates. -/
def inOrder : List Session := (sort.sort (t.sessions.map candidate)).filterMap fun c => t.find c.1

theorem map_candidate_inOrder : (inOrder sort t).map candidate = sort.sort (t.sessions.map candidate) := by
  have hall : ∀ c ∈ sort.sort (t.sessions.map candidate), (t.find c.1).map candidate = some c := by
    intro c hc
    obtain ⟨x, hx, rfl⟩ := List.mem_map.1 ((sort.perm _).mem_iff.1 hc)
    exact congrArg (Option.map candidate) (Table.find_key hx)
  rw [inOrder, List.map_filterMap]
  exact (List.filterMap_congr hall).trans (List.filterMap_some)

/-- Sorting leaves out no session and adds none. -/
theorem perm_inOrder : (inOrder sort t).Perm t.sessions := by
  refine ((sort.perm _).filterMap _).trans (List.Perm.of_eq ?_)
  rw [List.filterMap_map]
  exact (List.filterMap_congr fun x hx => Table.find_key hx).trans List.filterMap_some

/-- The sessions come in the order of their last contact. -/
theorem pairwise_inOrder : (inOrder sort t).Pairwise (·.link.lastSeenUptimeS ≤ ·.link.lastSeenUptimeS) := by
  have hsorted := sort.sorted (t.sessions.map candidate)
  rw [← map_candidate_inOrder, List.pairwise_map] at hsorted
  exact hsorted

theorem nodup_inOrder : ((inOrder sort t).map key).Nodup := ((perm_inOrder sort t).map key).nodup_iff.2 t.nodup

end

/-! ## The loop -/

section

variable {ram : Ram} {aggressive : Bool} {t : Table} {order done : List Session} {r : Run}

/-- What holds when the candidates of `done` have been dealt with. -/
structure Sofar (ram : Ram) (aggressive : Bool) (t : Table) (order done : List Session) (r : Run) : Prop where
  pre : done <+: order
  evicted : r.evicted = done.filter (evictable aggressive)
  skipped : r.skipped = done.filter (!evictable aggressive ·)
  count : r.evictedCount = r.evicted.length
  sessions : r.table.sessions = t.sessions.filter (key · ∉ r.evicted.map key)
  length : r.table.sessions.length + r.evicted.length = t.sessions.length
  room : r.evicted ≠ [] → 7 + 2 * r.evicted.length ≤ t.sessions.length
  checks : ∀ j < done.length, ¬ram.target ≤ ram.free (j + 1) ∧
    minSessionsToProtect + 2 * (order.take j).countP (evictable aggressive) < t.sessions.length

/-- How the loop ends. -/
inductive EndsBy (ram : Ram) (t : Table) (order done : List Session) (r : Run) : Stop → Prop
  | reached (h : ram.target ≤ ram.free (done.length + 1)) : EndsBy ram t order done r .reached
  | shielded {x : Session} {rest : List Session} (horder : order = done ++ x :: rest)
    (hfree : ¬ram.target ≤ ram.free (done.length + 1))
    (hcount : t.sessions.length ≤ minSessionsToProtect + 2 * r.evicted.length) :
    EndsBy ram t order done r .shielded
  | ended (h : order = done) : EndsBy ram t order done r .ended

/-- Erasing a key takes out one session. -/
theorem length_filter_key {l : List Session} {x : Session} (hl : (l.map key).Nodup) (hx : x ∈ l) :
    (l.filter (key · ≠ key x)).length + 1 = l.length := by
  induction l with
  | nil => cases hx
  | cons y l ih =>
    obtain ⟨hy, hl⟩ := List.nodup_cons.1 hl
    rcases List.mem_cons.1 hx with rfl | hx
    · have hall : l.filter (key · ≠ key x) = l :=
        List.filter_eq_self.2 fun z hz => decide_eq_true fun hkey => hy (hkey ▸ List.mem_map_of_mem hz)
      rw [List.filter_cons_of_neg (by simp), hall, List.length_cons]
    · have hne : key y ≠ key x := fun hkey => hy (hkey ▸ List.mem_map_of_mem hx)
      rw [List.filter_cons_of_pos (by simpa using hne), List.length_cons, List.length_cons, ih hl hx]

theorem Sofar.nil : Sofar ram aggressive t order [] { table := t } where
  pre := List.nil_prefix
  evicted := rfl
  skipped := rfl
  count := rfl
  sessions := by simp
  length := rfl
  room h := absurd rfl h
  checks j hj := absurd hj (Nat.not_lt_zero j)

namespace Sofar

variable {x : Session} {rest : List Session}

theorem mem_evicted (h : Sofar ram aggressive t order done r) {y : Session} (hy : y ∈ r.evicted) : y ∈ done :=
  List.mem_of_mem_filter (h.evicted ▸ hy)

/-- The next candidate is still in the table. -/
theorem mem_table (h : Sofar ram aggressive t order done r) (hperm : order.Perm t.sessions)
    (horder : order = done ++ x :: rest) : x ∈ r.table.sessions := by
  have hnodup : ((done ++ x :: rest).map key).Nodup := horder ▸ (hperm.map key).nodup_iff.2 t.nodup
  rw [List.map_append] at hnodup
  have hx : x ∈ t.sessions := hperm.mem_iff.1 (horder ▸ List.mem_append_right _ List.mem_cons_self)
  rw [h.sessions]
  refine List.mem_filter.2 ⟨hx, decide_eq_true fun hmem => ?_⟩
  obtain ⟨y, hy, hkey⟩ := List.mem_map.1 hmem
  exact List.disjoint_of_nodup_append hnodup (List.mem_map_of_mem (h.mem_evicted hy))
    (hkey ▸ List.mem_map_of_mem List.mem_cons_self)

/-- The check that the loop makes before it takes the next candidate. -/
theorem next_checks (h : Sofar ram aggressive t order done r) (horder : order = done ++ x :: rest)
    (hfree : ¬ram.target ≤ ram.free (done.length + 1))
    (hcount : minSessionsToProtect + 2 * r.evicted.length < t.sessions.length) :
    ∀ j < (done ++ [x]).length, ¬ram.target ≤ ram.free (j + 1) ∧
      minSessionsToProtect + 2 * (order.take j).countP (evictable aggressive) < t.sessions.length := by
  intro j hj
  rw [List.length_append, List.length_singleton] at hj
  rcases Nat.lt_succ_iff_lt_or_eq.1 hj with hlt | rfl
  · exact h.checks j hlt
  · have htake : order.take done.length = done := by rw [horder, List.take_left]
    rw [htake, List.countP_eq_length_filter, ← h.evicted]
    exact ⟨hfree, hcount⟩

/-- A session that is online is passed over, unless the call is aggressive. -/
theorem skip (h : Sofar ram aggressive t order done r) (horder : order = done ++ x :: rest)
    (hfree : ¬ram.target ≤ ram.free (done.length + 1))
    (hcount : minSessionsToProtect + 2 * r.evicted.length < t.sessions.length)
    (hx : evictable aggressive x = false) :
    Sofar ram aggressive t order (done ++ [x]) { r with skipped := r.skipped ++ [x] } where
  pre := ⟨rest, by rw [horder, List.append_assoc]; rfl⟩
  evicted := by
    have hnone : [x].filter (evictable aggressive) = [] := by simp [hx]
    rw [List.filter_append, hnone, List.append_nil]
    exact h.evicted
  skipped := by
    have hone : [x].filter (!evictable aggressive ·) = [x] := by simp [hx]
    rw [List.filter_append, hone, ← h.skipped]
  count := h.count
  sessions := h.sessions
  length := h.length
  room := h.room
  checks := h.next_checks horder hfree hcount

/-- A session is evicted when the heap is short and the count is above the number to protect, each
session that has gone counting twice. -/
theorem evict (h : Sofar ram aggressive t order done r) (hperm : order.Perm t.sessions)
    (horder : order = done ++ x :: rest) (hfree : ¬ram.target ≤ ram.free (done.length + 1))
    (hcount : minSessionsToProtect + 2 * r.evicted.length < t.sessions.length)
    (hx : evictable aggressive x = true) :
    Sofar ram aggressive t order (done ++ [x])
      { r with
        table := r.table.evict x
        evictedCount := r.evictedCount + 1
        evicted := r.evicted ++ [x] } where
  pre := ⟨rest, by rw [horder, List.append_assoc]; rfl⟩
  evicted := by
    have hone : [x].filter (evictable aggressive) = [x] := by simp [hx]
    rw [List.filter_append, hone, ← h.evicted]
  skipped := by
    have hnone : [x].filter (!evictable aggressive ·) = [] := by simp [hx]
    rw [List.filter_append, hnone, List.append_nil]
    exact h.skipped
  count := by rw [h.count, List.length_append, List.length_singleton]
  sessions := by
    show (r.table.sessions.filter (key · ≠ key x)) = _
    rw [h.sessions, List.filter_filter]
    apply List.filter_congr
    intro y _
    simp only [List.map_append, List.map_cons, List.map_nil, List.mem_append, List.mem_singleton, not_or,
      Bool.decide_and, and_comm]
  length := by
    have hlength : (r.table.evict x).sessions.length + 1 = r.table.sessions.length :=
      length_filter_key r.table.nodup (h.mem_table hperm horder)
    have hbefore := h.length
    rw [List.length_append, List.length_singleton]
    dsimp only
    omega
  room _ := by
    rw [List.length_append, List.length_singleton]
    unfold minSessionsToProtect at hcount
    omega
  checks := h.next_checks horder hfree hcount

end Sofar

/-- The loop, from any candidate on. -/
theorem evictLoop_sofar {rest : List Session} (hperm : order.Perm t.sessions)
    (hsize : t.sessions.length ≤ maxSessions) (horder : order = done ++ rest)
    (h : Sofar ram aggressive t order done r) :
    ∃ o done', evictLoop ram aggressive (rest.map candidate) done.length r = o ∧
      Sofar ram aggressive t order done' o.toRun ∧ EndsBy ram t order done' o.toRun o.stop := by
  induction rest generalizing done r with
  | nil => exact ⟨_, done, rfl, h, .ended (horder.trans (List.append_nil done))⟩
  | cons x rest ih =>
    have hwrap : (r.table.sessions.length + 2 ^ 32 - r.evictedCount) % 2 ^ 32 ≤ minSessionsToProtect ↔
        t.sessions.length ≤ minSessionsToProtect + 2 * r.evicted.length := by
      have hlength := h.length
      have hroom := h.room
      have hcount := h.count
      have hzero : r.evicted = [] → r.evicted.length = 0 := List.length_eq_zero_iff.2
      unfold maxSessions at hsize
      unfold minSessionsToProtect
      by_cases hnone : r.evicted = []
      · have hz := hzero hnone
        omega
      · have hr := hroom hnone
        omega
    have horder' : order = (done ++ [x]) ++ rest := by rw [horder, List.append_assoc]; rfl
    have hindex : (done ++ [x]).length = done.length + 1 := by rw [List.length_append]; rfl
    rw [List.map_cons, evictLoop]
    split
    next hreached => exact ⟨_, done, rfl, h, .reached hreached⟩
    next hfree =>
      split
      next hshielded => exact ⟨_, done, rfl, h, .shielded horder hfree (hwrap.1 hshielded)⟩
      next hroom =>
        have hcount := Nat.not_le.1 (mt hwrap.2 hroom)
        have hfind : r.table.find (candidate x).1 = some x := Table.find_key (h.mem_table hperm horder)
        rw [hfind]
        dsimp only
        split
        next hskip =>
          have hx : evictable aggressive x = false := by
            unfold evictable
            revert hskip
            cases aggressive <;> cases hasActive x <;> decide
          exact hindex ▸ ih horder' (h.skip horder hfree hcount hx)
        next htake =>
          have hx : evictable aggressive x = true := by
            unfold evictable
            revert htake
            cases aggressive <;> cases hasActive x <;> decide
          exact hindex ▸ ih horder' (h.evict hperm horder hfree hcount hx)

end

/-! ## What a call is to do -/

namespace Outcome

/-- Who is evicted has been heard of no later than who was evicted after it, and no later than who stays without
having been skipped. -/
structure Orderly (o : Outcome) : Prop where
  evicted : o.evicted.Pairwise (·.link.lastSeenUptimeS ≤ ·.link.lastSeenUptimeS)
  kept : ∀ x ∈ o.evicted, ∀ y ∈ o.table.sessions,
    y ∈ o.skipped ∨ x.link.lastSeenUptimeS ≤ y.link.lastSeenUptimeS

/-- Eviction leaves as many sessions as are to be protected. -/
def Protects (o : Outcome) : Prop := o.evicted ≠ [] → minSessionsToProtect ≤ o.table.sessions.length

/-- Where a call ends with the heap below the target, only the protected number of sessions is left, or only those
that were skipped for an active assembly. -/
def Settles (aggressive : Bool) (o : Outcome) : Prop :=
  o.stop.Short → o.table.sessions.length = minSessionsToProtect ∨
    ∀ x ∈ o.table.sessions, x ∈ o.skipped ∧ hasActive x = true ∧ aggressive = false

end Outcome

/-- A call stays inside the array of candidates and does all of this. -/
def Meets (ram : Ram) (aggressive : Bool) (sort : StdSort) (t : Table) : Prop :=
  ∃ o, evictSessionsForRam ram aggressive sort t = some o ∧ o.Orderly ∧ o.Protects ∧ o.Settles aggressive

/-- Before a candidate at which twice the evictions before it come within the protected number of sessions, a
reading has reached the target. -/
def ReachedBefore (ram : Ram) (aggressive : Bool) (sort : StdSort) (t : Table) : Prop :=
  ∀ i < t.sessions.length,
    t.sessions.length ≤ minSessionsToProtect + 2 * ((inOrder sort t).take i).countP (evictable aggressive) →
      ∃ j ≤ i, ram.target ≤ ram.free (j + 1)

/-- The array of candidates overflows as soon as there are more sessions than it has places for. -/
theorem fillCandidates_eq {xs : List Session} {count : Nat} (hcount : count ≤ maxSessions) :
    fillCandidates xs count = if count + xs.length ≤ maxSessions then some (xs.map candidate) else none := by
  induction xs generalizing count with
  | nil => exact (if_pos hcount).symm
  | cons x xs ih =>
    rw [fillCandidates, List.length_cons]
    by_cases hlt : count < maxSessions
    · rw [if_pos hlt, ih hlt, show count + (xs.length + 1) = count + 1 + xs.length by omega]
      split <;> rfl
    · rw [if_neg hlt, if_neg (by omega)]

section

variable {ram : Ram} {aggressive : Bool} {sort : StdSort} {t : Table} {done : List Session} {o : Outcome}

/-- A call with few enough sessions, as what it leaves. -/
theorem evictSessionsForRam_eq (aggressive : Bool) (sort : StdSort) (hlow : ram.low = true)
    (hsize : t.sessions.length ≤ maxSessions) :
    ∃ o done, evictSessionsForRam ram aggressive sort t = some o ∧
      Sofar ram aggressive t (inOrder sort t) done o.toRun ∧
        EndsBy ram t (inOrder sort t) done o.toRun o.stop := by
  have hnil : Sofar ram aggressive t (inOrder sort t) [] { table := t } := Sofar.nil
  obtain ⟨o, done, hloop, hsofar, hends⟩ :=
    evictLoop_sofar (perm_inOrder sort t) hsize (List.nil_append _).symm hnil
  refine ⟨o, done, ?_, hsofar, hends⟩
  rw [map_candidate_inOrder] at hloop
  rw [evictSessionsForRam, if_pos hlow, fillCandidates_eq (Nat.zero_le _), if_pos (by omega), ← hloop]
  rfl

/-- With the heap low, all sessions have to fit in the array. -/
theorem evictSessionsForRam_eq_none (hlow : ram.low = true) (hsize : maxSessions < t.sessions.length) :
    evictSessionsForRam ram aggressive sort t = none := by
  rw [evictSessionsForRam, if_pos hlow, fillCandidates_eq (Nat.zero_le _), if_neg (by omega)]
  rfl

namespace Sofar

/-- A session that stays has been skipped, or has not come up. -/
theorem stays {order : List Session} {r : Run} (h : Sofar ram aggressive t order done r)
    (hperm : order.Perm t.sessions) {y : Session} (hy : y ∈ r.table.sessions) :
    y ∈ r.skipped ∨ ∃ rest, order = done ++ rest ∧ y ∈ rest := by
  rw [h.sessions] at hy
  obtain ⟨hmem, hkey⟩ := List.mem_filter.1 hy
  obtain ⟨rest, rfl⟩ := h.pre
  rcases List.mem_append.1 (hperm.mem_iff.2 hmem) with hdone | hrest
  · refine .inl (h.skipped ▸ List.mem_filter.2 ⟨hdone, ?_⟩)
    by_contra htaken
    have hevicted : y ∈ r.evicted := h.evicted ▸ List.mem_filter.2 ⟨hdone, by simpa using htaken⟩
    exact of_decide_eq_true hkey (List.mem_map_of_mem hevicted)
  · exact .inr ⟨rest, rfl, hrest⟩

theorem orderly (h : Sofar ram aggressive t (inOrder sort t) done o.toRun) : o.Orderly := by
  have hsub : o.evicted.Sublist done := h.evicted ▸ List.filter_sublist
  have hsorted := pairwise_inOrder sort t
  refine ⟨hsorted.sublist (hsub.trans h.pre.sublist), fun x hx y hy => ?_⟩
  refine (h.stays (perm_inOrder sort t) hy).imp_right ?_
  rintro ⟨rest, horder, hrest⟩
  rw [horder, List.pairwise_append] at hsorted
  exact hsorted.2.2 x (hsub.subset hx) y hrest

theorem protects (h : Sofar ram aggressive t (inOrder sort t) done o.toRun) : o.Protects := by
  intro hevicted
  have hroom := h.room hevicted
  have hlength := h.length
  have hpos := List.length_pos_iff.2 hevicted
  unfold minSessionsToProtect
  omega

theorem of_mem_skipped {order : List Session} {r : Run} (h : Sofar ram aggressive t order done r) {x : Session}
    (hx : x ∈ r.skipped) : x ∈ done ∧ hasActive x = true ∧ aggressive = false := by
  rw [h.skipped] at hx
  obtain ⟨hdone, hskip⟩ := List.mem_filter.1 hx
  refine ⟨hdone, ?_⟩
  revert hskip
  unfold evictable
  cases aggressive <;> cases hasActive x <;> decide

/-- A call that has come to the end of the candidates leaves those that it has skipped. -/
theorem settles_of_ended (h : Sofar ram aggressive t (inOrder sort t) done o.toRun)
    (hall : inOrder sort t = done) : o.Settles aggressive := by
  intro _
  refine .inr fun x hx => ?_
  rcases h.stays (perm_inOrder sort t) hx with hskipped | ⟨rest, horder, hrest⟩
  · exact ⟨hskipped, (h.of_mem_skipped hskipped).2⟩
  · rw [hall, List.self_eq_append_right] at horder
    exact absurd (horder ▸ hrest) List.not_mem_nil

/-- A call that protects the sessions too soon leaves the right number from eight or nine only. -/
theorem settles_of_shielded (h : Sofar ram aggressive t (inOrder sort t) done o.toRun) {x : Session}
    {rest : List Session} (horder : inOrder sort t = done ++ x :: rest) (hstop : o.stop = .shielded)
    (hcount : t.sessions.length ≤ minSessionsToProtect + 2 * o.evicted.length) :
    o.Settles aggressive ↔ t.sessions.length = 8 ∨ t.sessions.length = 9 := by
  have hlength := h.length
  have hroom : o.evicted.length = 0 ∨ 7 + 2 * o.evicted.length ≤ t.sessions.length := by
    by_cases hnone : o.evicted = []
    · exact .inl (List.length_eq_zero_iff.2 hnone)
    · exact .inr (h.room hnone)
  have hleft : o.table.sessions.length = minSessionsToProtect ↔
      t.sessions.length = 8 ∨ t.sessions.length = 9 := by
    unfold minSessionsToProtect at hcount ⊢
    omega
  rw [← hleft]
  refine ⟨fun hsettles => (hsettles (.inl hstop)).resolve_right fun hall => ?_, fun heq _ => .inl heq⟩
  -- the candidate at which the loop stopped stays, and was not skipped
  have hskipped := (hall x (h.mem_table (perm_inOrder sort t) horder)).1
  have hnodup := nodup_inOrder sort t
  rw [horder, List.map_append] at hnodup
  exact List.disjoint_of_nodup_append hnodup (List.mem_map_of_mem (h.of_mem_skipped hskipped).1)
    (List.mem_map_of_mem List.mem_cons_self)

/-- The loop ends by the count exactly where no reading has reached the target before. -/
theorem shielded_iff (h : Sofar ram aggressive t (inOrder sort t) done o.toRun)
    (hends : EndsBy ram t (inOrder sort t) done o.toRun o.stop) :
    o.stop = .shielded ↔ ¬ReachedBefore ram aggressive sort t := by
  have hle := h.pre.length_le
  rw [(perm_inOrder sort t).length_eq] at hle
  generalize o.stop = s at hends
  cases hends with
  | reached hreached =>
    refine iff_of_false nofun (not_not_intro fun i hi hcount => ⟨done.length, ?_, hreached⟩)
    by_contra hlt
    exact absurd hcount (Nat.not_le.2 (h.checks i (Nat.not_le.1 hlt)).2)
  | @shielded x rest horder hfree hcount =>
    refine iff_of_true rfl fun hreached => ?_
    have hlt : done.length < t.sessions.length := by
      rw [← (perm_inOrder sort t).length_eq, horder, List.length_append, List.length_cons]
      omega
    have htake : (inOrder sort t).take done.length = done := by rw [horder, List.take_left]
    obtain ⟨j, hj, htarget⟩ := hreached done.length hlt (by
      rwa [htake, List.countP_eq_length_filter, ← h.evicted])
    rcases Nat.lt_or_eq_of_le hj with hj | rfl
    · exact (h.checks j hj).1 htarget
    · exact hfree htarget
  | ended hall =>
    refine iff_of_false nofun (not_not_intro fun i hi hcount => ?_)
    have hi' : i < done.length := by rwa [← hall, (perm_inOrder sort t).length_eq]
    exact absurd hcount (Nat.not_le.2 (h.checks i hi').2)

end Sofar

/-- A call settles where it ends in another way than by the count, or has eight or nine sessions. -/
theorem settles_iff (h : Sofar ram aggressive t (inOrder sort t) done o.toRun)
    (hends : EndsBy ram t (inOrder sort t) done o.toRun o.stop) :
    o.Settles aggressive ↔
      t.sessions.length = 8 ∨ t.sessions.length = 9 ∨ ReachedBefore ram aggressive sort t := by
  have hiff := h.shielded_iff hends
  generalize hstop : o.stop = s at hends hiff
  cases hends with
  | reached _ =>
    have hreached : ReachedBefore ram aggressive sort t := not_not.1 (mt hiff.2 nofun)
    refine iff_of_true (fun hshort => ?_) (.inr (.inr hreached))
    rcases hshort with hshort | hshort <;> exact absurd (hstop.symm.trans hshort) nofun
  | shielded horder _ hcount =>
    rw [h.settles_of_shielded horder hstop hcount]
    have hreached : ¬ReachedBefore ram aggressive sort t := hiff.1 rfl
    simp only [hreached, or_false]
  | ended hall =>
    have hreached : ReachedBefore ram aggressive sort t := not_not.1 (mt hiff.2 nofun)
    exact iff_of_true (h.settles_of_ended hall) (.inr (.inr hreached))

end

/-- Where the heap is not low nothing happens. -/
theorem meets_of_plenty {ram : Ram} {aggressive : Bool} {sort : StdSort} {t : Table} (hlow : ram.low = false) :
    Meets ram aggressive sort t := by
  refine ⟨⟨{ table := t }, .plenty⟩, ?_, ⟨List.Pairwise.nil, fun x hx => absurd hx List.not_mem_nil⟩,
    fun h => absurd rfl h, fun hshort => ?_⟩
  · rw [evictSessionsForRam, if_neg (by rw [hlow]; decide)]
  · rcases hshort with hshort | hshort <;> cases hshort

/-- A call does all that it is to do where the heap is not low; and where it is, where there is room for the
candidates and either eight or nine sessions or a reading that has reached the target before the count comes
within the protected number. -/
theorem meets_iff (ram : Ram) (aggressive : Bool) (sort : StdSort) (t : Table) :
    Meets ram aggressive sort t ↔
      ram.low = false ∨ t.sessions.length ≤ 128 ∧
        (t.sessions.length = 8 ∨ t.sessions.length = 9 ∨ ReachedBefore ram aggressive sort t) := by
  cases hlow : ram.low with
  | false => exact iff_of_true (meets_of_plenty hlow) (.inl rfl)
  | true =>
    rw [or_iff_right (by decide)]
    by_cases hsize : t.sessions.length ≤ maxSessions
    · have hroom : t.sessions.length ≤ 128 := hsize
      obtain ⟨o, done, heq, hsofar, hends⟩ := evictSessionsForRam_eq aggressive sort hlow hsize
      rw [and_iff_right hroom, ← settles_iff hsofar hends]
      constructor
      · rintro ⟨o', ho', -, -, hsettles⟩
        rw [heq] at ho'
        exact Option.some.inj ho' ▸ hsettles
      · intro hsettles
        exact ⟨o, heq, hsofar.orderly, hsofar.protects, hsettles⟩
    · refine iff_of_false ?_ (fun h => hsize h.1)
      rintro ⟨o, ho, -⟩
      rw [evictSessionsForRam_eq_none hlow (Nat.not_le.1 hsize)] at ho
      cases ho

/-! ### Ten sessions -/

/-- An insertion sort is one of the sorts. -/
def insertion : StdSort where
  sort cs := cs.insertionSort (·.2 ≤ ·.2)
  perm := List.perm_insertionSort _
  sorted cs :=
    have : Std.Total fun a b : Candidate => a.2 ≤ b.2 := ⟨fun a b => UInt32.le_total a.2 b.2⟩
    have : IsTrans Candidate fun a b => a.2 ≤ b.2 := ⟨fun _ _ _ => UInt32.le_trans⟩
    List.pairwise_insertionSort _ cs

/-- Ten leaves have been heard of. -/
def tenSessions : Table :=
  ((List.range 10).map fun i => (Octets.fit 6 [UInt8.ofNat i] : Mac)).foldl Table.ensureSession {}

/-- A heap that stays low. -/
def lowRam : Ram := ⟨fun _ => 20000, true⟩

/-- One of ten sessions is evicted, and the call ends with nine. -/
theorem not_meets_tenSessions : ¬Meets lowRam false insertion tenSessions := by
  have hrun : ((evictSessionsForRam lowRam false insertion tenSessions).map fun o =>
      (o.stop, o.table.sessions.length, o.skipped.length)) = some (.shielded, 9, 0) := by
    decide +kernel
  rintro ⟨o, ho, -, -, hsettles⟩
  rw [ho] at hrun
  obtain ⟨hstop, hrest⟩ := Prod.mk.inj (Option.some.inj hrun)
  obtain ⟨hlength, hskipped⟩ := Prod.mk.inj hrest
  rcases hsettles (.inl hstop) with hmin | hall
  · exact absurd (hlength.symm.trans hmin) (by decide)
  · obtain ⟨x, hx⟩ := List.exists_mem_of_length_pos (hlength ▸ (by decide : 0 < 9))
    exact List.ne_nil_of_mem (hall x hx).1 (List.length_eq_zero_iff.1 hskipped)

/-! ## The cleanup of the loop -/

/-- Sessions that are offline go, one after the other, while there are too many. -/
def dropOffline : List Session → Table → Table
  | [], t => t
  | x :: xs, t =>
    if x.online then dropOffline xs t
    else if (t.evict x).sessions.length ≤ maxSessions then t.evict x
    else dropOffline xs (t.evict x)

/-- The cleanup of `loop`. -/
def cleanup (ram : Ram) (sort : StdSort) (t : Table) : Option Table :=
  (evictSessionsForRam ram false sort t).map fun o =>
    if maxSessions < o.table.sessions.length then dropOffline o.table.sessions o.table else o.table

/-- The loop after the eviction ends with few enough sessions, or with none that is offline. -/
theorem dropOffline_bounded {xs : List Session} {t : Table} (h : ∀ x ∈ t.sessions, x ∈ xs ∨ x.online = true) :
    (dropOffline xs t).sessions.length ≤ maxSessions ∨ ∀ x ∈ (dropOffline xs t).sessions, x.online = true := by
  induction xs generalizing t with
  | nil => exact .inr fun x hx => (h x hx).resolve_left List.not_mem_nil
  | cons y xs ih =>
    rw [dropOffline]
    split
    next honline =>
      refine ih fun x hx => (h x hx).elim (fun hmem => ?_) .inr
      rcases List.mem_cons.1 hmem with rfl | hmem
      · exact .inr honline
      · exact .inl hmem
    next =>
      split
      next hfew => exact .inl hfew
      next =>
        refine ih fun x hx => ?_
        obtain ⟨hmem, hne⟩ := List.mem_filter.1 hx
        refine (h x hmem).imp_left fun hcons => (List.mem_cons.1 hcons).resolve_left ?_
        rintro rfl
        exact absurd rfl (of_decide_eq_true hne)

/-- It takes no session that is online. -/
theorem mem_dropOffline {xs : List Session} {t : Table} (hxs : xs ⊆ t.sessions) {x : Session} (hx : x ∈ t.sessions)
    (honline : x.online = true) : x ∈ (dropOffline xs t).sessions := by
  have hkept {xs : List Session} {t u : Table} (hxs : xs ⊆ t.sessions) (hu : u.sessions ⊆ t.sessions)
      (hx : x ∈ u.sessions) : x ∈ (dropOffline xs u).sessions := by
    induction xs generalizing u with
    | nil => exact hx
    | cons y xs ih =>
      obtain ⟨hy, hrest⟩ := List.cons_subset.1 hxs
      rw [dropOffline]
      split
      next => exact ih hrest hu hx
      next hoffline =>
        have hstays : x ∈ (u.evict y).sessions := by
          refine List.mem_filter.2 ⟨hx, decide_eq_true fun hkey => ?_⟩
          rw [key_inj t.nodup (hu hx) hy hkey] at honline
          exact hoffline honline
        split
        next => exact hstays
        next => exact ih hrest (fun z hz => hu (List.mem_filter.1 hz).1) hstays
  exact hkept hxs (List.Subset.refl _) hx

/-- The cleanup fails just when it finds the heap low and more than `MAX_SESSIONS` sessions.  Otherwise it leaves
`MAX_SESSIONS` of them at most, unless all that are left are online, and with enough heap it takes none that is
online. -/
theorem cleanup_bounded (ram : Ram) (sort : StdSort) (t : Table) :
    (cleanup ram sort t = none ↔ ram.low = true ∧ maxSessions < t.sessions.length) ∧
      ∀ t', cleanup ram sort t = some t' →
        (t'.sessions.length ≤ maxSessions ∨ ∀ x ∈ t'.sessions, x.online = true) ∧
          (ram.low = false → ∀ x ∈ t.sessions, x.online = true → x ∈ t'.sessions) := by
  constructor
  · rw [cleanup, Option.map_eq_none_iff]
    constructor
    · intro hnone
      cases hlow : ram.low with
      | false => simp [evictSessionsForRam, hlow] at hnone
      | true =>
        refine ⟨rfl, Nat.lt_of_not_le fun hsize => ?_⟩
        obtain ⟨o, -, ho, -⟩ := evictSessionsForRam_eq (t := t) false sort hlow hsize
        rw [ho] at hnone
        cases hnone
    · rintro ⟨hlow, hsize⟩
      exact evictSessionsForRam_eq_none hlow hsize
  · intro t' h
    obtain ⟨o, ho, rfl⟩ := Option.map_eq_some_iff.1 h
    refine ⟨?_, fun hlow x hx honline => ?_⟩
    · split
      · exact dropOffline_bounded fun x hx => .inl hx
      next hfew => exact .inl (Nat.not_lt.1 hfew)
    · obtain rfl : (⟨{ table := t }, .plenty⟩ : Outcome) = o := by
        simpa [evictSessionsForRam, hlow] using ho
      split
      · exact mem_dropOffline (List.Subset.refl _) hx honline
      · exact hx

end Eviction

end EspTree
