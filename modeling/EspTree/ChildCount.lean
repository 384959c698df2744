import EspTree.Routes

/-!
# How many children a relay reports

`total_children_count_` follows the next hops from each routed leaf and counts the leaf when it comes to the
address of the node itself.  `refresh_route_` refuses every route with that address as its leaf or its next
hop, so no walk through a table that it built gets there, and the count is always 0 (`totalChildrenCount_eq`).

`countsChildren_iff` says that the count is right if and only if there is nothing to count.

`CountsChildren` says what the count should be, the number of leaves that the node forwards for, and
that it is no less than the count of the direct children.  `WalkEnds` says that no walk goes on for
ever, whatever the table is, and this part always holds (`walkStep_wellFounded`).

The route of a direct child has the child as its next hop, so a walk from there stays at the child
and does not come to the node.  Even a relay with one direct child reports none in all, and
`not_countsChildren_directChild` is such a relay.
-/

namespace EspTree

open Wire Transition

namespace Remote

variable {η : Type}

/-! ## What should be counted -/

/-- The routed leaves, other than the node itself, that it forwards to: directly, or through a relay that is
routed as well. -/
def forwardedLeaves (s : Remote η) : List Mac :=
  (s.route.routes.filter fun r => r.leafMac != s.config.leafMac &&
    (r.nextHopMac == r.leafMac || (s.findRoute r.nextHopMac).isSome)).map RouteEntry.leafMac

/-- One round of the `while` loop of `total_children_count_`, at `next_hop` with `hops` rounds made. -/
inductive WalkStep (s : Remote η) : Nat × Mac → Nat × Mac → Prop
  | hop {hops : Nat} {nextHop : Mac} {r : RouteEntry} (hleft : hops < s.route.routes.length + 1)
      (hother : nextHop ≠ s.config.leafMac) (hroute : s.findRoute nextHop = some r) :
      WalkStep s (hops, nextHop) (hops + 1, r.nextHopMac)

/-- The walk ends whatever the table is, and the loop tells whether it comes to the node. -/
structure WalkEnds (s : Remote η) : Prop where
  ends : WellFounded fun b a => s.WalkStep a b
  loop : ∀ mac, s.reachesSelf (s.route.routes.length + 1) mac ↔ ∃ hops < s.route.routes.length + 1,
    Relation.ReflTransGen s.WalkStep (0, mac) (hops, s.config.leafMac)

/-- What `total_children_count_` should return. -/
structure CountsChildren (s : Remote η) : Prop where
  total : s.totalChildrenCount = s.forwardedLeaves.length
  direct : s.directChildCount.toNat ≤ s.totalChildrenCount

/-- The route tables that refreshes and prunes build from an empty one. -/
abbrev RoutesReachable : Remote η → Prop :=
  Reachable (fun s => s.route.routes = []) (fun _ _ => True) routeCall

/-! ## The walk -/

/-- No walk goes on for ever, whatever the table is. -/
theorem walkStep_wellFounded (s : Remote η) : WellFounded fun b a => s.WalkStep a b := by
  have hmeasure : ∀ b a, s.WalkStep a b →
      s.route.routes.length + 1 - b.1 < s.route.routes.length + 1 - a.1 := by
    rintro _ _ ⟨hleft, -, -⟩
    dsimp only
    omega
  exact Subrelation.wf (hmeasure _ _) (measure fun a : Nat × Mac => s.route.routes.length + 1 - a.1).wf

/-- A walk only counts up its rounds. -/
theorem walkStep_le {s : Remote η} {a b : Nat × Mac} (h : Relation.ReflTransGen s.WalkStep a b) : a.1 ≤ b.1 := by
  induction h with
  | refl => exact le_rfl
  | tail _ hstep ih =>
    cases hstep
    exact ih.trans (Nat.le_succ _)

/-- The walk with `left` rounds left gets to the node itself if and only if the loop does. -/
theorem reachesSelf_iff {s : Remote η} {hops left : Nat} (hbound : hops + left = s.route.routes.length + 1)
    {mac : Mac} :
    s.reachesSelf left mac ↔ ∃ hops' < s.route.routes.length + 1,
      Relation.ReflTransGen s.WalkStep (hops, mac) (hops', s.config.leafMac) := by
  induction left generalizing hops mac with
  | zero =>
    refine ⟨nofun, ?_⟩
    rintro ⟨hops', hlt, hwalk⟩
    have hle := walkStep_le hwalk
    dsimp only at hle
    omega
  | succ left ih =>
    rw [reachesSelf]
    by_cases hself : mac = s.config.leafMac
    · subst hself
      rw [if_pos (beq_self_eq_true _)]
      exact ⟨fun _ => ⟨hops, by omega, .refl⟩, fun _ => rfl⟩
    rw [if_neg (by simpa using hself)]
    cases hfind : s.findRoute mac with
    | none =>
      refine ⟨nofun, ?_⟩
      rintro ⟨hops', -, hwalk⟩
      rcases Relation.ReflTransGen.cases_head hwalk with heq | ⟨_, hstep, -⟩
      · exact absurd (congrArg Prod.snd heq) hself
      · cases hstep with
        | hop _ _ hroute => cases hfind.symm.trans hroute
    | some r =>
      have hnext : hops + 1 + left = s.route.routes.length + 1 := by omega
      refine (ih hnext).trans ⟨?_, ?_⟩
      · rintro ⟨hops', hlt, hwalk⟩
        exact ⟨hops', hlt, .head (.hop (by omega) hself hfind) hwalk⟩
      · rintro ⟨hops', hlt, hwalk⟩
        rcases Relation.ReflTransGen.cases_head hwalk with heq | ⟨_, hstep, hwalk⟩
        · exact absurd (congrArg Prod.snd heq) hself
        · cases hstep with
          | hop _ _ hroute =>
            cases hfind.symm.trans hroute
            exact ⟨hops', hlt, hwalk⟩

/-- The table has no route to the node itself and none over it. -/
structure ForeignRoutes (s : Remote η) : Prop where
  once : (s.route.routes.map RouteEntry.leafMac).Nodup
  leaf : ∀ r ∈ s.route.routes, r.leafMac ≠ s.config.leafMac
  nextHop : ∀ r ∈ s.route.routes, r.nextHopMac ≠ s.config.leafMac

section

variable {s : Remote η}

theorem mem_of_findRoute {mac : Mac} {r : RouteEntry} (h : s.findRoute mac = some r) : r ∈ s.route.routes :=
  List.mem_of_find?_eq_some h

/-- A refresh with the address of the node itself is refused, so the routes stay foreign. -/
theorem ForeignRoutes.refresh (h : s.ForeignRoutes) (e : Env) (leafMac nextHopMac : Mac) :
    (s.refreshRoute e leafMac nextHopMac).ForeignRoutes := by
  by_cases hallowed : leafMac = s.config.leafMac ∨ nextHopMac = s.config.leafMac
  · have hsame : s.refreshRoute e leafMac nextHopMac = s := if_pos hallowed
    rw [hsame]
    exact h
  · have hconfig : (s.refreshRoute e leafMac nextHopMac).config = s.config :=
      refreshRoute_config s leafMac nextHopMac
    have hroutes := refreshRoute_routes (e := e) s hallowed
    obtain ⟨hleaf, hnext⟩ := not_or.1 hallowed
    refine ⟨?_, ?_, ?_⟩
    · rw [hroutes]
      exact nodup_placed h.once
    all_goals
      intro r hr
      rw [hroutes, mem_placed h.once] at hr
      rw [hconfig]
      rcases hr with rfl | ⟨hr, -⟩
    · exact hleaf
    · exact h.leaf r hr
    · exact hnext
    · exact h.nextHop r hr

/-- A prune only takes routes out. -/
theorem ForeignRoutes.prune (h : s.ForeignRoutes) (e : Env) : (s.pruneRoutes e).ForeignRoutes := by
  refine ⟨?_, fun r hr => h.leaf r (mem_pruneRoutes.1 hr).1, fun r hr => h.nextHop r (mem_pruneRoutes.1 hr).1⟩
  exact h.once.sublist (List.filter_sublist.map RouteEntry.leafMac)

/-- No route of a table that was built from an empty one has the address of the node. -/
theorem RoutesReachable.foreign (h : RoutesReachable s) : s.ForeignRoutes := by
  refine Reachable.invariant (fun s hs => ?_) (fun s call hs _ => ?_) h
  · refine ⟨?_, ?_, ?_⟩
    all_goals rw [show s.route.routes = [] from hs]
    · exact List.nodup_nil
    · exact nofun
    · exact nofun
  · cases call with
    | refresh e leafMac nextHopMac => exact hs.refresh e leafMac nextHopMac
    | prune e => exact hs.prune e

/-- A walk that does not begin at the node itself does not get there. -/
theorem ForeignRoutes.not_reachesSelf (h : s.ForeignRoutes) (hops : Nat) {mac : Mac}
    (hmac : mac ≠ s.config.leafMac) : s.reachesSelf hops mac = false := by
  induction hops generalizing mac with
  | zero => rfl
  | succ hops ih =>
    rw [reachesSelf, if_neg (by simpa using hmac)]
    cases hfind : s.findRoute mac with
    | none => rfl
    | some r => exact ih (h.nextHop r (mem_of_findRoute hfind))

/-- The count is 0. -/
theorem ForeignRoutes.totalChildrenCount_eq (h : s.ForeignRoutes) : s.totalChildrenCount = 0 := by
  unfold totalChildrenCount
  split
  · rfl
  · have hnone : s.route.routes.filter (fun r => r.leafMac != s.config.leafMac &&
        s.reachesSelf (s.route.routes.length + 1) r.leafMac) = [] := by
      rw [List.filter_eq_nil_iff]
      intro r hr
      rw [h.not_reachesSelf _ (h.leaf r hr), Bool.and_false]
      exact Bool.false_ne_true
    rw [hnone]
    rfl

theorem findRoute_leaf {r : RouteEntry} (hr : r ∈ s.route.routes) : (s.findRoute r.leafMac).isSome :=
  (find_leaf_iff s.route.routes r.leafMac).2 (List.mem_map_of_mem hr)

/-- There is nothing to count exactly if no route leads to a routed leaf. -/
theorem ForeignRoutes.forwardedLeaves_eq_nil_iff (h : s.ForeignRoutes) :
    s.forwardedLeaves = [] ↔ ∀ r ∈ s.route.routes, s.findRoute r.nextHopMac = none := by
  unfold forwardedLeaves
  rw [List.map_eq_nil_iff, List.filter_eq_nil_iff]
  refine forall₂_congr fun r hr => ?_
  have hleaf : (r.leafMac != s.config.leafMac) = true := by simpa using h.leaf r hr
  rw [hleaf, Bool.true_and, Bool.or_eq_true, not_or, Option.not_isSome_iff_eq_none]
  constructor
  · rintro ⟨-, hnone⟩
    exact hnone
  · intro hnone
    refine ⟨fun hdirect => ?_, hnone⟩
    have hfound := findRoute_leaf hr
    rw [← beq_iff_eq.1 hdirect, hnone] at hfound
    cases hfound

/-- A direct child is a leaf that the node forwards to. -/
theorem directChildCount_le (s : Remote η) :
    s.directChildCount.toNat ≤ s.forwardedLeaves.length := by
  unfold directChildCount forwardedLeaves
  rw [UInt8.toNat_ofNat', List.length_map]
  refine (Nat.mod_le _ _).trans ?_
  refine (List.monotone_filter_right _ fun r hr => ?_).length_le
  rw [Bool.and_eq_true] at hr ⊢
  exact ⟨hr.1, by rw [hr.2, Bool.true_or]⟩

/-- The counts are right, and the walk ends, if and only if no route leads to a routed leaf, be it
the leaf of the route itself.  The walk from a leaf counts it when it comes to the address of the
node, which no route of the table has, and so the total is always zero. -/
theorem countsChildren_iff (h : RoutesReachable s) :
    s.CountsChildren ∧ s.WalkEnds ↔ ∀ r ∈ s.route.routes, s.findRoute r.nextHopMac = none := by
  have hforeign := h.foreign
  have htotal := hforeign.totalChildrenCount_eq
  rw [← hforeign.forwardedLeaves_eq_nil_iff]
  constructor
  · rintro ⟨hcounts, -⟩
    exact List.length_eq_zero_iff.1 (hcounts.total.symm.trans htotal)
  · intro hnil
    have hlength : s.forwardedLeaves.length = 0 := List.length_eq_zero_iff.2 hnil
    have hdirect := s.directChildCount_le
    refine ⟨⟨htotal.trans hlength.symm, by omega⟩, s.walkStep_wellFounded, fun mac => ?_⟩
    exact reachesSelf_iff (Nat.zero_add _)

end

/-- A relay without routes. -/
def lonelyRelay : Remote Unit where
  config := { leafMac := Octets.fit 6 [9] }
  route := { canRelay := true }
  files := { handlers := fun _ => none }

/-- The relay when it has refreshed the route of a leaf in range, or of a leaf behind a relay that it has no
route for. -/
def parentRelay (leafMac nextHopMac : Mac) : Remote Unit :=
  lonelyRelay.routeCall (.refresh (.quiet 0 (Octets.zero 16)) leafMac nextHopMac)

theorem parentRelay_reachable (leafMac nextHopMac : Mac) : RoutesReachable (parentRelay leafMac nextHopMac) :=
  .next (.start rfl) trivial

/-- A leaf behind a relay without a route is not counted, as it should not be. -/
theorem countsChildren_unroutedRelay :
    (parentRelay (Octets.fit 6 [1]) (Octets.fit 6 [2])).CountsChildren ∧
      (parentRelay (Octets.fit 6 [1]) (Octets.fit 6 [2])).WalkEnds :=
  (countsChildren_iff (parentRelay_reachable _ _)).2 (by decide)

/-- A relay with one child reports it as a direct child, and no child in all. -/
theorem not_countsChildren_directChild :
    RoutesReachable (parentRelay (Octets.fit 6 [1]) (Octets.fit 6 [1])) ∧
      (parentRelay (Octets.fit 6 [1]) (Octets.fit 6 [1])).route.canRelay ∧
      (parentRelay (Octets.fit 6 [1]) (Octets.fit 6 [1])).forwardedLeaves = [Octets.fit 6 [1]] ∧
      (parentRelay (Octets.fit 6 [1]) (Octets.fit 6 [1])).directChildCount = 1 ∧
      (parentRelay (Octets.fit 6 [1]) (Octets.fit 6 [1])).totalChildrenCount = 0 ∧
      ¬ (parentRelay (Octets.fit 6 [1]) (Octets.fit 6 [1])).CountsChildren := by
  have hcounts : (parentRelay (Octets.fit 6 [1]) (Octets.fit 6 [1])).forwardedLeaves = [Octets.fit 6 [1]] ∧
      (parentRelay (Octets.fit 6 [1]) (Octets.fit 6 [1])).directChildCount = 1 ∧
      (parentRelay (Octets.fit 6 [1]) (Octets.fit 6 [1])).totalChildrenCount = 0 := by decide
  obtain ⟨hforwarded, hdirect, htotal⟩ := hcounts
  refine ⟨parentRelay_reachable _ _, rfl, hforwarded, hdirect, htotal, fun hcounts => ?_⟩
  have hwrong := hcounts.total
  rw [htotal, hforwarded] at hwrong
  cases hwrong

end Remote

end EspTree
