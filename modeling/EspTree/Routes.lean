import EspTree.Remote.Moves
import EspTree.Lib.Clock

/-!
# How long a route lives

`refresh_route_` writes the time at which a route expires, and `prune_routes_` compares it with the
clock.  Both are readings of 32 bits, so the comparison goes wrong when they lie on different sides of a
wrap.

`Lifetime` is what the routes should be, in true time.  `route_lifetime_iff` says that a run keeps to it if
and only if it comes to no prune that finds a deadline out of order with the clock (`Misjudges`).

A run is a list of calls with the true time of each, and the clock of the code shows this time
modulo its period (`Timely`).  `RouteTimes` keeps the true time at which a route was refreshed, as a
history that no function reads.

The invariant `Good` says that the table has the routes that it should have, that their deadlines
are those times plus the lifetime, as readings, and that no leaf has two of them.  A prune keeps it
unless it misjudges a deadline, and when it does, the table differs from `Lifetime` at that moment;
this is why the theorem is an equivalence.
-/

namespace EspTree

open Wire Clock Transition

namespace Remote

variable {η : Type}

/-! ## Refreshing and pruning -/

inductive RouteCall
  | refresh (e : Env) (leafMac nextHopMac : Mac)
  | prune (e : Env)

def RouteCall.now? : RouteCall → Option UInt32
  | .refresh e .. | .prune e => some e.now

def routeCall (s : Remote η) : RouteCall → Remote η
  | .refresh e leafMac nextHopMac => s.refreshRoute e leafMac nextHopMac
  | .prune e => s.pruneRoutes e

/-- When each leaf was last refreshed, and when the routes were last pruned. -/
structure RouteTimes where
  refreshed : Mac → Option Nat := fun _ => none
  pruned : Nat := 0

/-- A refresh that names the node itself is refused. -/
def RouteTimes.note (s : Remote η) (event : Nat × RouteCall) (_ : Remote η) (times : RouteTimes) : RouteTimes :=
  match event.2 with
  | .refresh _ leafMac nextHopMac =>
    if leafMac = s.config.leafMac ∨ nextHopMac = s.config.leafMac then times
    else { times with refreshed := Function.update times.refreshed leafMac (some event.1) }
  | .prune _ => { times with pruned := event.1 }

/-- The leaf with the true times of what is done to its routes. -/
abbrev Routed (η : Type) := Timed (Remote η) RouteTimes

def Routed.step (s : Routed η) (event : Nat × RouteCall) : Routed η :=
  Timed.step routeCall RouteTimes.note s event

abbrev Routed.Timely (s : Routed η) (event : Nat × RouteCall) : Prop :=
  Timed.Timely RouteCall.now? s event

/-- `route_ttl_seconds` in milliseconds. -/
def routeTtlMs (s : Remote η) : Nat := s.config.routeTtlSeconds.toNat * 1000

/-- A node without routes, with a TTL that the configuration admits. -/
structure Routed.Start (s : Routed η) : Prop where
  routes : s.state.route.routes = []
  least : 60 ≤ s.state.config.routeTtlSeconds
  most : s.state.config.routeTtlSeconds ≤ 604800
  mark : s.mark = {}

/-- There is one route for each leaf whose last refresh was less than the TTL before the last prune, and
none for the node itself. -/
structure Routed.Lifetime (s : Routed η) : Prop where
  held : ∀ leafMac, (∃ r ∈ s.state.route.routes, r.leafMac = leafMac) ↔
    ∃ t, s.mark.refreshed leafMac = some t ∧ s.mark.pruned < t + s.state.routeTtlMs
  once : (s.state.route.routes.map RouteEntry.leafMac).Nodup
  foreign : ∀ r ∈ s.state.route.routes, r.leafMac ≠ s.state.config.leafMac

/-- A prune finds a deadline out of order with the clock: the wrap lies between them, and the clock has not
come to the reading of the deadline again. -/
def Routed.Misjudges (s : Routed η) (event : Nat × RouteCall) : Prop :=
  (∃ e, event.2 = .prune e) ∧ ∃ r ∈ s.state.route.routes, ∃ t, s.mark.refreshed r.leafMac = some t ∧
    ¬ InOrder (t + s.state.routeTtlMs) event.1

/-! ## One entry for a leaf -/

/-- The entry takes the place of the leaf's route, or the end of the list. -/
def placed (routes : List RouteEntry) (entry : RouteEntry) : List RouteEntry :=
  if (routes.find? (fun r => r.leafMac == entry.leafMac)).isSome then
    routes.replaceF (fun r => if r.leafMac == entry.leafMac then some entry else none)
  else routes ++ [entry]

section

variable {routes : List RouteEntry} {entry r : RouteEntry}

theorem replaceF_leaves (routes : List RouteEntry) (entry : RouteEntry) :
    (routes.replaceF (fun r => if r.leafMac == entry.leafMac then some entry else none)).map
      RouteEntry.leafMac = routes.map RouteEntry.leafMac := by
  induction routes with
  | nil => rfl
  | cons first rest ih =>
    by_cases heq : first.leafMac = entry.leafMac
    · simp [List.replaceF, heq]
    · simpa [List.replaceF, heq] using ih

/-- In a table with one route for a leaf, replacing it changes this route only. -/
theorem mem_replaceF (hnodup : (routes.map RouteEntry.leafMac).Nodup)
    (hfound : entry.leafMac ∈ routes.map RouteEntry.leafMac) :
    r ∈ routes.replaceF (fun r => if r.leafMac == entry.leafMac then some entry else none) ↔
      r = entry ∨ r ∈ routes ∧ r.leafMac ≠ entry.leafMac := by
  induction routes with
  | nil => cases hfound
  | cons first rest ih =>
    rw [List.map_cons, List.nodup_cons] at hnodup
    by_cases heq : first.leafMac = entry.leafMac
    · have hother : ∀ r ∈ rest, r.leafMac ≠ entry.leafMac := by
        intro r hr hsame
        exact hnodup.1 (List.mem_map.2 ⟨r, hr, hsame.trans heq.symm⟩)
      have hcons : (first :: rest).replaceF
          (fun r => if r.leafMac == entry.leafMac then some entry else none) = entry :: rest := by
        simp [List.replaceF, heq]
      rw [hcons, List.mem_cons, List.mem_cons]
      constructor
      · rintro (rfl | hr)
        · exact .inl rfl
        · exact .inr ⟨.inr hr, hother r hr⟩
      · rintro (rfl | ⟨rfl | hr, hne⟩)
        · exact .inl rfl
        · exact absurd heq hne
        · exact .inr hr
    · have hcons : (first :: rest).replaceF
          (fun r => if r.leafMac == entry.leafMac then some entry else none) =
          first :: rest.replaceF (fun r => if r.leafMac == entry.leafMac then some entry else none) := by
        simp [List.replaceF, heq]
      have hrest : entry.leafMac ∈ rest.map RouteEntry.leafMac :=
        (List.mem_cons.1 hfound).resolve_left (Ne.symm heq)
      rw [hcons, List.mem_cons, ih hnodup.2 hrest, List.mem_cons]
      constructor
      · rintro (rfl | rfl | ⟨hr, hne⟩)
        · exact .inr ⟨.inl rfl, heq⟩
        · exact .inl rfl
        · exact .inr ⟨.inr hr, hne⟩
      · rintro (rfl | ⟨rfl | hr, hne⟩)
        · exact .inr (.inl rfl)
        · exact .inl rfl
        · exact .inr (.inr ⟨hr, hne⟩)

theorem find_leaf_iff (routes : List RouteEntry) (mac : Mac) :
    (routes.find? (fun r => r.leafMac == mac)).isSome ↔ mac ∈ routes.map RouteEntry.leafMac := by
  simp [List.find?_isSome, List.mem_map]

/-- A route that is placed is in the table, with those of the other leaves. -/
theorem mem_placed (hnodup : (routes.map RouteEntry.leafMac).Nodup) :
    r ∈ placed routes entry ↔ r = entry ∨ r ∈ routes ∧ r.leafMac ≠ entry.leafMac := by
  unfold placed
  split
  next hfound => exact mem_replaceF hnodup ((find_leaf_iff routes entry.leafMac).1 hfound)
  next hnew =>
    rw [find_leaf_iff] at hnew
    have hother : ∀ r ∈ routes, r.leafMac ≠ entry.leafMac :=
      fun r hr hsame => hnew (List.mem_map.2 ⟨r, hr, hsame⟩)
    rw [List.mem_append, List.mem_singleton]
    constructor
    · rintro (hr | rfl)
      · exact .inr ⟨hr, hother r hr⟩
      · exact .inl rfl
    · rintro (rfl | ⟨hr, -⟩)
      · exact .inr rfl
      · exact .inl hr

/-- A table keeps one route for a leaf. -/
theorem nodup_placed (hnodup : (routes.map RouteEntry.leafMac).Nodup) :
    ((placed routes entry).map RouteEntry.leafMac).Nodup := by
  unfold placed
  split
  · rw [replaceF_leaves]
    exact hnodup
  next hnew =>
    rw [find_leaf_iff] at hnew
    rw [List.map_append, List.nodup_append]
    refine ⟨hnodup, List.nodup_singleton _, ?_⟩
    rintro mac hmac mac' hmac' rfl
    rw [List.map_singleton, List.mem_singleton] at hmac'
    exact hnew (hmac' ▸ hmac)

end

/-! ## One call -/

section

variable {s : Routed η} {T : Nat} {call : RouteCall} {e : Env} {leafMac nextHopMac : Mac}

/-- What holds as long as no prune misjudges a deadline: the entries are those of `Lifetime`, with the
readings of their deadlines. -/
structure Routed.Good (s : Routed η) : Prop where
  lifetime : s.Lifetime
  expiry : ∀ r ∈ s.state.route.routes, ∃ t, s.mark.refreshed r.leafMac = some t ∧
    r.expiryMs = reading (t + s.state.routeTtlMs)
  past : ∀ leafMac t, s.mark.refreshed leafMac = some t → t ≤ s.clock
  pruned : s.mark.pruned ≤ s.clock
  least : 60 ≤ s.state.config.routeTtlSeconds
  most : s.state.config.routeTtlSeconds ≤ 604800

theorem Routed.Start.good (h : s.Start) : s.Good where
  lifetime := by
    refine ⟨fun leafMac => ?_, ?_, ?_⟩
    · rw [h.routes, h.mark]
      constructor
      · rintro ⟨r, hr, -⟩
        cases hr
      · rintro ⟨t, ht, -⟩
        cases ht
    · rw [h.routes]
      exact List.nodup_nil
    · rw [h.routes]
      intro r hr
      cases hr
  expiry := by
    rw [h.routes]
    intro r hr
    cases hr
  past := by
    rw [h.mark]
    intro leafMac t ht
    cases ht
  pruned := by
    rw [h.mark]
    exact Nat.zero_le _
  least := h.least
  most := h.most

/-- The TTL in milliseconds does not overflow. -/
theorem Routed.Good.ttl (h : s.Good) :
    (s.state.config.routeTtlSeconds * 1000).toNat = s.state.routeTtlMs ∧ 0 < s.state.routeTtlMs ∧
      s.state.routeTtlMs < period := by
  have hleast := UInt32.le_iff_toNat_le.1 h.least
  have hmost := UInt32.le_iff_toNat_le.1 h.most
  have hmul := UInt32.toNat_mul s.state.config.routeTtlSeconds 1000
  have hsixty : (60 : UInt32).toNat = 60 := rfl
  have hweek : (604800 : UInt32).toNat = 604800 := rfl
  have hthousand : (1000 : UInt32).toNat = 1000 := rfl
  rw [hthousand] at hmul
  unfold routeTtlMs period
  omega

/-- A refresh at `T` puts an entry that expires at `T + ttl`. -/
theorem refreshRoute_routes (s : Remote η)
    (hallowed : ¬ (leafMac = s.config.leafMac ∨ nextHopMac = s.config.leafMac)) :
    (s.refreshRoute e leafMac nextHopMac).route.routes =
      placed s.route.routes ⟨leafMac, nextHopMac, e.now + s.config.routeTtlSeconds * 1000⟩ := by
  unfold refreshRoute
  rw [if_neg hallowed]
  rfl

/-- A refresh writes the deadline of its route and leaves the others alone. -/
theorem Routed.Good.refresh (h : s.Good) (htime : s.Timely (T, .refresh e leafMac nextHopMac)) :
    (s.step (T, .refresh e leafMac nextHopMac)).Good := by
  obtain ⟨hclock, hnow⟩ := htime
  have hnow : e.now = reading T := hnow _ rfl
  have hconfig := refreshRoute_config (e := e) s.state leafMac nextHopMac
  by_cases hallowed : leafMac = s.state.config.leafMac ∨ nextHopMac = s.state.config.leafMac
  · -- the refresh is refused
    have hstate : s.state.refreshRoute e leafMac nextHopMac = s.state := by
      unfold refreshRoute
      rw [if_pos hallowed]
    have hstep : s.step (T, .refresh e leafMac nextHopMac) = ⟨s.state, T, s.mark⟩ := by
      simp [Routed.step, Timed.step, routeCall, RouteTimes.note, hstate, hallowed]
    rw [hstep]
    exact ⟨⟨h.lifetime.held, h.lifetime.once, h.lifetime.foreign⟩, h.expiry,
      fun mac t ht => (h.past mac t ht).trans hclock, h.pruned.trans hclock, h.least, h.most⟩
  · obtain ⟨httl, hpos, hperiod⟩ := h.ttl
    set entry : RouteEntry := ⟨leafMac, nextHopMac, e.now + s.state.config.routeTtlSeconds * 1000⟩ with hentry
    have hroutes : (s.state.refreshRoute e leafMac nextHopMac).route.routes = placed s.state.route.routes entry :=
      refreshRoute_routes s.state hallowed
    have hexpiry : entry.expiryMs = reading (T + s.state.routeTtlMs) := by
      rw [hentry, ← httl, ← reading_add, ← hnow]
    have hstep : s.step (T, .refresh e leafMac nextHopMac) = ⟨s.state.refreshRoute e leafMac nextHopMac, T,
        { s.mark with refreshed := Function.update s.mark.refreshed leafMac (some T) }⟩ := by
      simp [Routed.step, Timed.step, routeCall, RouteTimes.note, hallowed]
    rw [hstep]
    have hmem (r : RouteEntry) : r ∈ placed s.state.route.routes entry ↔
        r = entry ∨ r ∈ s.state.route.routes ∧ r.leafMac ≠ leafMac := mem_placed h.lifetime.once
    have hstill : s.mark.pruned < T + s.state.routeTtlMs := by
      have hpruned := h.pruned
      dsimp only at hclock
      omega
    refine ⟨⟨fun mac => ?_, ?_, ?_⟩, ?_, ?_, h.pruned.trans hclock, hconfig ▸ h.least, hconfig ▸ h.most⟩
    · simp only [hroutes, hmem, routeTtlMs, hconfig]
      by_cases hmac : mac = leafMac
      · subst hmac
        rw [Function.update_self]
        exact ⟨fun _ => ⟨T, rfl, hstill⟩, fun _ => ⟨entry, .inl rfl, rfl⟩⟩
      · rw [Function.update_of_ne hmac, ← routeTtlMs, ← h.lifetime.held mac]
        constructor
        · rintro ⟨r, rfl | ⟨hr, -⟩, rfl⟩
          · exact absurd rfl hmac
          · exact ⟨r, hr, rfl⟩
        · rintro ⟨r, hr, rfl⟩
          exact ⟨r, .inr ⟨hr, hmac⟩, rfl⟩
    · simp only [hroutes]
      exact nodup_placed h.lifetime.once
    · simp only [hroutes, hmem, hconfig]
      rintro r (rfl | ⟨hr, -⟩)
      · exact fun hself => hallowed (.inl hself)
      · exact h.lifetime.foreign r hr
    · simp only [hroutes, hmem, routeTtlMs, hconfig]
      rintro r (rfl | ⟨hr, hne⟩)
      · exact ⟨T, Function.update_self .., hexpiry⟩
      · rw [Function.update_of_ne hne]
        exact h.expiry r hr
    · intro mac t (ht : Function.update s.mark.refreshed leafMac (some T) mac = some t)
      by_cases hmac : mac = leafMac
      · subst hmac
        rw [Function.update_self] at ht
        cases ht
        exact le_refl T
      · rw [Function.update_of_ne hmac] at ht
        exact (h.past mac t ht).trans hclock

/-- A prune keeps the entries whose deadlines the clock shows as future. -/
theorem prune_step (s : Routed η) (T : Nat) (e : Env) :
    s.step (T, .prune e) = ⟨s.state.pruneRoutes e, T, { s.mark with pruned := T }⟩ := rfl

/-- A prune keeps the routes whose deadline the clock does not show as reached. -/
theorem mem_pruneRoutes {s : Remote η} {r : RouteEntry} :
    r ∈ (s.pruneRoutes e).route.routes ↔ r ∈ s.route.routes ∧ e.now < r.expiryMs := by
  simp [pruneRoutes, List.mem_filter]

/-- A prune that misjudges no deadline keeps exactly the routes whose lifetime is not over. -/
theorem Routed.Good.prune (h : s.Good) (htime : s.Timely (T, .prune e)) (hok : ¬ s.Misjudges (T, .prune e)) :
    (s.step (T, .prune e)).Good := by
  obtain ⟨hclock, hnow⟩ := htime
  have hnow : e.now = reading T := hnow _ rfl
  have hkept (r : RouteEntry) (t : Nat) (hr : r ∈ s.state.route.routes)
      (ht : s.mark.refreshed r.leafMac = some t) : e.now < r.expiryMs ↔ T < t + s.state.routeTtlMs := by
    obtain ⟨t', ht', hexpiry⟩ := h.expiry r hr
    cases ht.symm.trans ht'
    have horder : InOrder (t + s.state.routeTtlMs) T := by
      by_contra hout
      exact hok ⟨⟨e, rfl⟩, r, hr, t, ht, hout⟩
    rw [hexpiry, hnow, lt_iff horder]
  rw [prune_step]
  refine ⟨⟨fun mac => ?_, ?_, ?_⟩, ?_, ?_, le_rfl, h.least, h.most⟩
  · show (∃ r ∈ (s.state.pruneRoutes e).route.routes, r.leafMac = mac) ↔
      ∃ t, s.mark.refreshed mac = some t ∧ T < t + s.state.routeTtlMs
    constructor
    · rintro ⟨r, hr, rfl⟩
      obtain ⟨hr, hfuture⟩ := mem_pruneRoutes.1 hr
      obtain ⟨t, ht, -⟩ := h.expiry r hr
      exact ⟨t, ht, (hkept r t hr ht).1 hfuture⟩
    · rintro ⟨t, ht, hfuture⟩
      have hbefore : s.mark.pruned < t + s.state.routeTtlMs := (h.pruned.trans hclock).trans_lt hfuture
      obtain ⟨r, hr, rfl⟩ := (h.lifetime.held mac).2 ⟨t, ht, hbefore⟩
      exact ⟨r, mem_pruneRoutes.2 ⟨hr, (hkept r t hr ht).2 hfuture⟩, rfl⟩
  · exact (List.filter_sublist.map RouteEntry.leafMac).nodup h.lifetime.once
  · exact fun r hr => h.lifetime.foreign r (mem_pruneRoutes.1 hr).1
  · exact fun r hr => h.expiry r (mem_pruneRoutes.1 hr).1
  · exact fun mac t ht => (h.past mac t ht).trans hclock

/-- A deadline that is out of order is judged wrongly. -/
theorem Routed.Good.misjudged (h : s.Good) (htime : s.Timely (T, call)) (hbad : s.Misjudges (T, call)) :
    ¬ (s.step (T, call)).Lifetime := by
  obtain ⟨⟨e, hcall⟩, r, hr, t, ht, hout⟩ := hbad
  dsimp only at hcall hout
  subst hcall
  intro hafter
  rw [prune_step] at hafter
  obtain ⟨hclock, hnow⟩ := htime
  have hnow : e.now = reading T := hnow _ rfl
  have hpast := h.past _ t ht
  obtain ⟨t', ht', hexpiry⟩ := h.expiry r hr
  cases ht.symm.trans ht'
  refine hout ((inOrder_iff ?_).1 ?_)
  · have hperiod := h.ttl.2.2
    dsimp only at hclock
    omega
  -- the entry is there after the prune iff its reading is ahead, and should be iff its deadline is
  have hheld := hafter.held r.leafMac
  have hentry : (∃ r' ∈ (s.state.pruneRoutes e).route.routes, r'.leafMac = r.leafMac) ↔
      e.now < r.expiryMs := by
    constructor
    · rintro ⟨r', hr', hsame⟩
      obtain ⟨hr', hfuture⟩ := mem_pruneRoutes.1 hr'
      rwa [List.inj_on_of_nodup_map h.lifetime.once hr' hr hsame] at hfuture
    · exact fun hfuture => ⟨r, mem_pruneRoutes.2 ⟨hr, hfuture⟩, rfl⟩
  have hshould : (∃ t, s.mark.refreshed r.leafMac = some t ∧ T < t + s.state.routeTtlMs) ↔
      T < t + s.state.routeTtlMs := by
    constructor
    · rintro ⟨t', ht', hfuture⟩
      cases ht.symm.trans ht'
      exact hfuture
    · exact fun hfuture => ⟨t, ht, hfuture⟩
  have hboth := hentry.symm.trans (hheld.trans hshould)
  rwa [hexpiry, hnow] at hboth

/-- One event keeps the table in line with the true times, if it misjudges no deadline. -/
theorem Routed.Good.step (h : s.Good) (htime : s.Timely (T, call)) (hok : ¬ s.Misjudges (T, call)) :
    (s.step (T, call)).Good := by
  cases call with
  | refresh e leafMac nextHopMac => exact h.refresh htime
  | prune e => exact h.prune htime hok

end

/-! ## Runs -/

/-- A run keeps to the lifetimes of its routes if and only if no prune misjudges a deadline.  A
deadline is a reading of a clock of 32 bits and is compared as a number, so that it lies ahead or
behind only within a period of the clock. -/
theorem Routed.route_lifetime_iff (s : Routed η) (hs : s.Start) (events : List (Nat × RouteCall))
    (htimely : Admits Routed.Timely Routed.step s events) :
    (∀ n, (runFrom Routed.step s (events.take n)).Lifetime) ↔
      Admits (fun s event => ¬ s.Misjudges event) Routed.step s events := by
  have hgood := hs.good
  clear hs
  induction events generalizing s with
  | nil => exact ⟨fun _ => trivial, fun _ n => by rw [List.take_nil]; exact hgood.lifetime⟩
  | cons event events ih =>
    obtain ⟨htime, htimely⟩ := htimely
    constructor
    · intro hall
      have hok : ¬ s.Misjudges event := fun hbad => hgood.misjudged htime hbad (hall 1)
      exact ⟨hok, (ih _ htimely (hgood.step htime hok)).1 fun n => hall (n + 1)⟩
    · rintro ⟨hok, hrest⟩ n
      cases n with
      | zero => exact hgood.lifetime
      | succ n => exact (ih _ htimely (hgood.step htime hok)).2 hrest n

/-! ## Near a wrap -/

/-- A relay with the default TTL of two days. -/
def idleRelay : Routed Unit where
  state := { config := { leafMac := Octets.fit 6 [1] }, files := { handlers := fun _ => none } }
  clock := 0
  mark := {}

theorem idleRelay_start : idleRelay.Start := ⟨rfl, by decide, by decide, rfl⟩

/-- A child is heard from at time `T`. -/
def refreshAt (T : Nat) : Nat × RouteCall :=
  (T, .refresh (.quiet (reading T) (Octets.zero 16)) (Octets.fit 6 [2]) (Octets.fit 6 [2]))

def pruneAt (T : Nat) : Nat × RouteCall := (T, .prune (.quiet (reading T) (Octets.zero 16)))

theorem refreshAt_timely {s : Routed Unit} {T : Nat} (hclock : s.clock ≤ T) : s.Timely (refreshAt T) :=
  ⟨hclock, fun _ hnow => (Option.mem_some.1 hnow).symm⟩

theorem pruneAt_timely {s : Routed Unit} {T : Nat} (hclock : s.clock ≤ T) : s.Timely (pruneAt T) :=
  ⟨hclock, fun _ hnow => (Option.mem_some.1 hnow).symm⟩

theorem not_misjudges {s : Routed η} {T : Nat} {call : RouteCall}
    (hall : s.state.route.routes.all fun r => (s.mark.refreshed r.leafMac).all fun t =>
      decide (InOrder (t + s.state.routeTtlMs) T)) : ¬ s.Misjudges (T, call) := by
  rintro ⟨-, r, hr, t, ht, hout⟩
  have horder := List.all_eq_true.1 hall r hr
  rw [ht, Option.all_some, decide_eq_true_eq] at horder
  exact hout horder

/-- The child is heard from twice, and its route is pruned two days later. -/
def quietDays : List (Nat × RouteCall) :=
  [refreshAt 1000, pruneAt 5000, refreshAt 6000, pruneAt 172805999, pruneAt 172806000]

/-- The route is there for the two days after it was last refreshed, and no longer. -/
theorem route_lifetime_quietDays :
    (runFrom Routed.step idleRelay quietDays).state.route.routes = [] ∧
      ∀ n, (runFrom Routed.step idleRelay (quietDays.take n)).Lifetime := by
  refine ⟨by decide +kernel, (Routed.route_lifetime_iff idleRelay idleRelay_start quietDays ?_).2 ?_⟩
  · exact ⟨refreshAt_timely (by decide), pruneAt_timely (by decide), refreshAt_timely (by decide),
      pruneAt_timely (by decide), pruneAt_timely (by decide), trivial⟩
  · exact ⟨not_misjudges (by decide +kernel), not_misjudges (by decide +kernel), not_misjudges (by decide +kernel),
      not_misjudges (by decide +kernel), not_misjudges (by decide +kernel), trivial⟩

/-- After 48 days the deadline of every refresh is beyond the wrap. -/
def lateDays : List (Nat × RouteCall) := [refreshAt 4200000000, pruneAt 4200000010]

/-- The route is gone ten milliseconds after it was refreshed. -/
theorem route_lost_lateDays :
    idleRelay.Start ∧ Admits Routed.Timely Routed.step idleRelay lateDays ∧
      ¬ (runFrom Routed.step idleRelay lateDays).Lifetime := by
  refine ⟨idleRelay_start, ⟨refreshAt_timely (by decide), pruneAt_timely (by decide), trivial⟩, fun h => ?_⟩
  have hgone : (runFrom Routed.step idleRelay lateDays).state.route.routes = [] := by decide +kernel
  have hrefreshed : (runFrom Routed.step idleRelay lateDays).mark.refreshed (Octets.fit 6 [2]) =
      some 4200000000 := by decide +kernel
  have hfuture : (runFrom Routed.step idleRelay lateDays).mark.pruned <
      4200000000 + (runFrom Routed.step idleRelay lateDays).state.routeTtlMs := by decide +kernel
  obtain ⟨r, hr, -⟩ := (h.held (Octets.fit 6 [2])).2 ⟨_, hrefreshed, hfuture⟩
  rw [hgone] at hr
  cases hr

end Remote

end EspTree
