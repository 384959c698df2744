import Mathlib.Data.Int.ConditionallyCompleteOrder
import Mathlib.Data.List.MinMax
import Mathlib.Data.Prod.Lex
import EspTree.Lib.System
import EspTree.Remote.Moves
import EspTree.Remote.Steady

/-!
# The choice of a parent

While a leaf looks for a parent it keeps one candidate, the best that was announced so far.  Candidates are
compared by their place among the preferred parents, by the hops to the bridge, and by the strength of the
signal: `isBetter_iff` says that this is a lexicographic order, and `InCycle.best?_eq` that the leaf keeps the
first least candidate.

`start_discovery_cycle_` and `start_route_recovery_cycle_` forget the candidate of the cycle before, and
`start_config_full_rediscovery_` does not.  `selectsBest_iff` says when the leaf ends with the best of the
candidates that were announced.
-/

namespace EspTree

open Wire FileReceiver Transition

namespace Remote

variable {η : Type}

/-! ## The order of candidates -/

/-- Place among the preferred parents, hops to the bridge, and strength of the signal. -/
abbrev Rank := WithTop ℕ ×ₗ ℕ ×ₗ ℤ

/-- The rank of a candidate; the stronger of two signals ranks first. -/
def rankOf (place : WithTop ℕ) (hops : UInt8) (rssi : Int) : Rank := toLex (place, toLex (hops.toNat, -rssi))

/-- The place that a recorded index stands for. -/
def placeOf (index : UInt8) : WithTop ℕ := if index = 0xFF then ⊤ else (index.toNat : ℕ)

/-- The rank that a candidate has by what is recorded of it. -/
def Candidate.rank (c : Candidate) : Rank := rankOf (placeOf c.preferredIndex) c.hopsToBridge c.rssi

/-- A node that is not preferred comes after all that are. -/
theorem placeOf_none : placeOf 0xFF = ⊤ := rfl

theorem placeOf_some {index : UInt8} (h : index ≠ 0xFF) : placeOf index = (index.toNat : ℕ) := if_neg h

/-- Two nodes with one place are the same place in the list of preferred parents. -/
theorem placeOf_injective : Function.Injective placeOf := by
  intro a b h
  by_cases ha : a = 0xFF <;> by_cases hb : b = 0xFF
  · rw [ha, hb]
  · rw [ha, placeOf_none, placeOf_some hb] at h
    exact absurd h.symm (WithTop.coe_ne_top)
  · rw [hb, placeOf_none, placeOf_some ha] at h
    exact absurd h (WithTop.coe_ne_top)
  · rw [placeOf_some ha, placeOf_some hb] at h
    exact UInt8.toNat_inj.1 (WithTop.coe_inj.1 h)

theorem placeOf_lt {a b : UInt8} : placeOf a < placeOf b ↔ a < b := by
  have hleast (x : UInt8) : ¬ (0xFF : UInt8) < x := fun hlt => by
    have := UInt8.lt_iff_toNat_lt.1 hlt
    have := x.toNat_lt
    rw [show (0xFF : UInt8).toNat = 255 from rfl] at *
    omega
  by_cases ha : a = 0xFF
  · rw [ha, placeOf_none]
    exact iff_of_false not_top_lt (hleast b)
  by_cases hb : b = 0xFF
  · rw [hb, placeOf_none, placeOf_some ha]
    refine iff_of_true (WithTop.coe_lt_top _) (UInt8.lt_iff_toNat_lt.2 ?_)
    have := a.toNat_lt
    have : a.toNat ≠ 255 := fun h => ha (UInt8.toNat_inj.1 h)
    rw [show (0xFF : UInt8).toNat = 255 from rfl]
    omega
  · rw [placeOf_some ha, placeOf_some hb, UInt8.lt_iff_toNat_lt]
    exact WithTop.coe_lt_coe

/-- The order of the ranks: place, then hops, then the stronger signal. -/
theorem rankOf_lt {place place' : WithTop ℕ} {hops hops' : UInt8} {rssi rssi' : Int} :
    rankOf place hops rssi < rankOf place' hops' rssi' ↔
      place < place' ∨ place = place' ∧ (hops < hops' ∨ hops = hops' ∧ rssi' < rssi) := by
  unfold rankOf
  rw [Prod.Lex.toLex_lt_toLex, Prod.Lex.toLex_lt_toLex, ← UInt8.lt_iff_toNat_lt, UInt8.toNat_inj]
  simp only [Int.neg_lt_neg_iff]

/-- The comparison in the source is the comparison of ranks. -/
theorem isBetter_iff {best other : Candidate} (hvalid : best.valid) :
    best.isBetter other.preferredIndex other.hopsToBridge other.rssi ↔ other.rank < best.rank := by
  unfold Candidate.rank
  rw [rankOf_lt, placeOf_lt, placeOf_injective.eq_iff]
  simp [Candidate.isBetter, hvalid]

/-! ## Announcements -/

/-- An announcement that the leaf accepted, with the candidate that it offers. -/
structure Offer where
  senderMac : Mac
  responderMac : Mac
  candidate : Candidate

/-- The place of the sender or the responder in a list of preferred parents. -/
def Offer.place (preferred : List Mac) (o : Offer) : WithTop ℕ :=
  match preferred.findIdx? (fun m => m == o.senderMac || m == o.responderMac) with
  | some i => (i : ℕ)
  | none => ⊤

/-- The rank of an announcement. -/
def Offer.rank (preferred : List Mac) (o : Offer) : Rank :=
  rankOf (o.place preferred) o.candidate.hopsToBridge o.candidate.rssi

/-- The announcement that a call brings, if the leaf accepts it. -/
def offer? (P : Platform η) (s : Remote η) : Call → Option Offer
  | .frame e senderMac data rssi =>
    match parseFrame data with
    | some f =>
      let announce := DiscoverAnnounce.parse f.payload
      if f.type? = some .discoverAnnounce ∧ (s.onFrame P e senderMac f data.length rssi).2 then
        some ⟨senderMac, announce.responderMac, s.candidate e senderMac announce rssi⟩ else none
    | none => none
  | _ => none

/-- The candidate that is kept. -/
def best? (s : Remote η) : Option Candidate := if s.route.bestParent.valid then some s.route.bestParent else none

/-- The call neither forgets a candidate nor changes the preferred parents. -/
def StaysInCycle (P : Platform η) (s : Remote η) (c : Call) : Prop :=
  (s.route.bestParent.valid → (s.call P c).route.bestParent.valid) ∧
    (s.call P c).route.preferredParents = s.route.preferredParents

/-- A sequence of calls that stay in one cycle. -/
def InCycle (P : Platform η) : Remote η → List Call → Prop := Admits (StaysInCycle P) (call P)

/-- The announcements that the leaf accepts. -/
def heardIn (P : Platform η) (s : Remote η) : List Call → List Offer
  | [] => []
  | c :: cs => (s.offer? P c).toList ++ (s.call P c).heardIn P cs

/-- The candidate is one that was announced, and no other ranks before it. -/
structure SelectsBest (t : Remote η) (heard : List Offer) : Prop where
  valid : t.route.bestParent.valid
  least : ∃ o ∈ heard, t.route.bestParent = o.candidate ∧
    ∀ o' ∈ heard, o.rank t.route.preferredParents ≤ o'.rank t.route.preferredParents

section

variable {P : Platform η} {s t : Remote η} {c : Call} {cs cs' : List Call}

/-- What is announced is the offer of the call, as a candidate. -/
theorem announced?_eq (P : Platform η) (s : Remote η) (c : Call) :
    s.announced? P c = (s.offer? P c).map Offer.candidate := by
  cases c with
  | frame e senderMac data rssi =>
    unfold announced? offer?
    dsimp only
    cases parseFrame data with
    | none => rfl
    | some f =>
      dsimp only
      split <;> rfl
  | _ => rfl

/-- What the leaf records of an announcement gives its rank, if the list is not longer than the index can say. -/
theorem rank_offer {o : Offer} (hlength : s.route.preferredParents.length < 255) (ho : s.offer? P c = some o) :
    o.candidate.valid ∧ o.candidate.rank = o.rank s.route.preferredParents := by
  cases c with
  | frame e senderMac data rssi =>
    unfold offer? at ho
    dsimp only at ho
    split at ho
    · obtain ⟨-, ho⟩ := Option.ite_none_right_eq_some.1 ho
      obtain rfl := Option.some.inj ho
      refine ⟨rfl, ?_⟩
      unfold Candidate.rank Offer.rank
      congr 1
      unfold Offer.place candidate preferredIndex
      dsimp only
      generalize hfind : s.route.preferredParents.findIdx? _ = place
      cases place with
      | none => rfl
      | some i =>
        have hlt : i < 255 := (List.findIdx?_eq_some_iff_findIdx_eq.1 hfind).1.trans hlength
        have hindex : (UInt8.ofNat i).toNat = i := by
          rw [UInt8.toNat_ofNat']
          omega
        dsimp only
        rw [placeOf_some, hindex]
        intro hmax
        rw [hmax] at hindex
        exact hlt.ne hindex.symm
    · cases ho
  | _ => cases ho

/-- The better of a candidate that is kept and another. -/
theorem best?_keepBetter {other : Candidate} (hvalid : other.valid)
    (hbest : t.route.bestParent = s.route.bestParent.keepBetter other) :
    t.best? = (s.best?.toList ++ [other]).argmin Candidate.rank := by
  have hsome {x : Candidate} (hx : x.valid) (h : t.route.bestParent = x) : t.best? = some x := by
    rw [best?, h, if_pos hx]
  cases hold : s.route.bestParent.valid with
  | false =>
    rw [Candidate.keepBetter, if_pos (by simp [Candidate.isBetter, hold])] at hbest
    rw [hsome hvalid hbest, best?, hold]
    rfl
  | true =>
    simp only [Candidate.keepBetter, isBetter_iff hold] at hbest
    rw [show s.best? = some s.route.bestParent from if_pos hold]
    simp only [Option.toList_some, List.argmin_concat, List.argmin_singleton]
    by_cases hlt : other.rank < s.route.bestParent.rank
    · rw [if_pos hlt] at hbest ⊢
      exact hsome hvalid hbest
    · rw [if_neg hlt] at hbest ⊢
      exact hsome hold hbest

/-- A call of the cycle leaves the candidate, or compares it with the one that is announced. -/
theorem best?_call (hlength : s.route.preferredParents.length < 255) (hstays : s.StaysInCycle P c) :
    (s.call P c).best? = (s.best?.toList ++ (s.offer? P c).toList.map Offer.candidate).argmin Candidate.rank := by
  have hsingle (o : Option Candidate) : o = o.toList.argmin Candidate.rank := by cases o <;> rfl
  have hkept {u : Remote η} (hu : u.route.bestParent = s.route.bestParent) (h : Steady P u (s.call P c)) :
      (s.call P c).best? = s.best? := by
    unfold best?
    rcases h.chosen with ⟨hbest, -⟩ | hbest
    · rw [hbest, hu]
    · have hlost := hstays.1
      rw [hbest] at hlost ⊢
      rw [if_neg nofun, if_neg fun hvalid => nomatch hlost hvalid]
  have hoffer := announced?_eq P s c
  cases call_turn P s c with
  | steady hquiet h =>
    rw [hquiet, eq_comm, Option.map_eq_none_iff] at hoffer
    rw [hoffer, hkept rfl h, Option.toList_none, List.map_nil, List.append_nil]
    exact hsingle _
  | reported hquiet _ h =>
    rw [hquiet, eq_comm, Option.map_eq_none_iff] at hoffer
    rw [hoffer, hkept (u := { s with reported := s.config.identity }) rfl h, Option.toList_none, List.map_nil,
      List.append_nil]
    exact hsingle _
  | announced hsome _ hbest =>
    rw [hsome, eq_comm, Option.map_eq_some_iff] at hoffer
    obtain ⟨o, ho, rfl⟩ := hoffer
    rw [ho]
    exact best?_keepBetter (rank_offer hlength ho).1 hbest

/-- Taking the least of the first part first makes no difference. -/
theorem argmin_append {α β : Type} [LinearOrder β] (f : α → β) (l l' : List α) :
    ((l.argmin f).toList ++ l').argmin f = (l ++ l').argmin f := by
  induction l' using List.reverseRecOn with
  | nil =>
    rw [List.append_nil, List.append_nil]
    cases l.argmin f <;> rfl
  | append_singleton l' a ih =>
    rw [← List.append_assoc, ← List.append_assoc, List.argmin_concat, List.argmin_concat, ih]

/-- The candidate after a cycle: the first least of the one kept before and those announced. -/
theorem InCycle.best?_eq (hlength : s.route.preferredParents.length < 255) (h : InCycle P s cs) :
    (runFrom (call P) s cs).route.preferredParents = s.route.preferredParents ∧
      (runFrom (call P) s cs).best? =
        (s.best?.toList ++ (s.heardIn P cs).map Offer.candidate).argmin Candidate.rank := by
  induction cs generalizing s with
  | nil =>
    refine ⟨rfl, ?_⟩
    rw [heardIn, List.map_nil, List.append_nil, runFrom]
    cases s.best? <;> rfl
  | cons c cs ih =>
    obtain ⟨hstays, hrest⟩ := h
    obtain ⟨hpreferred, hbest⟩ := ih (by rwa [hstays.2]) hrest
    refine ⟨hpreferred.trans hstays.2, ?_⟩
    rw [runFrom, hbest, best?_call hlength hstays, argmin_append, heardIn, List.map_append, List.append_assoc]

/-- What is recorded of the announcements of a cycle gives their ranks. -/
theorem InCycle.rank_eq (hlength : s.route.preferredParents.length < 255) (h : InCycle P s cs) :
    ∀ o ∈ s.heardIn P cs, o.candidate.rank = o.rank s.route.preferredParents := by
  induction cs generalizing s with
  | nil => nofun
  | cons c cs ih =>
    obtain ⟨hstays, hrest⟩ := h
    intro o ho
    rcases List.mem_append.1 ho with ho | ho
    · exact (rank_offer hlength (Option.mem_toList.1 ho)).2
    · rw [← hstays.2]
      exact ih (by rwa [hstays.2]) hrest o ho

/-- Candidates with the same ranks have the same least rank. -/
theorem argmin_rank_eq {α β : Type} [LinearOrder β] {f : α → β} {l l' : List α} (h : ∀ a, a ∈ l ↔ a ∈ l') :
    (l.argmin f).map f = (l'.argmin f).map f := by
  cases hl : l.argmin f with
  | none =>
    obtain rfl := List.argmin_eq_none.1 hl
    have hnil : l' = [] := List.eq_nil_iff_forall_not_mem.2 fun a ha => List.not_mem_nil ((h a).2 ha)
    rw [hnil, List.argmin_nil]
  | some a =>
    cases hl' : l'.argmin f with
    | none =>
      have hmem := (h a).1 (List.argmin_mem hl)
      rw [List.argmin_eq_none.1 hl'] at hmem
      cases hmem
    | some b =>
      refine congrArg some (le_antisymm ?_ ?_)
      · exact List.le_of_mem_argmin ((h b).2 (List.argmin_mem hl')) hl
      · exact List.le_of_mem_argmin ((h a).1 (List.argmin_mem hl)) hl'

/-- The order of the announcements does not matter to the rank of the candidate. -/
theorem InCycle.rank_unique (hlength : s.route.preferredParents.length < 255) (h : InCycle P s cs)
    (h' : InCycle P s cs') (hperm : (s.heardIn P cs').Perm (s.heardIn P cs)) :
    (runFrom (call P) s cs').best?.map Candidate.rank = (runFrom (call P) s cs).best?.map Candidate.rank := by
  rw [(h.best?_eq hlength).2, (h'.best?_eq hlength).2]
  exact argmin_rank_eq fun a => ((hperm.map Offer.candidate).append_left _).mem_iff

theorem best?_eq_some {c : Candidate} : s.best? = some c ↔ s.route.bestParent.valid ∧ s.route.bestParent = c := by
  unfold best?
  rw [Option.ite_none_right_eq_some, Option.some.injEq]

/-- A candidate that none of those announced ranks before is kept. -/
theorem InCycle.kept (hlength : s.route.preferredParents.length < 255) (h : InCycle P s cs)
    (hvalid : s.route.bestParent.valid)
    (hnone : ∀ o ∈ s.heardIn P cs, s.route.bestParent.rank ≤ o.rank s.route.preferredParents) :
    (runFrom (call P) s cs).best? = some s.route.bestParent := by
  rw [(h.best?_eq hlength).2, best?_eq_some.2 ⟨hvalid, rfl⟩, Option.toList_some, List.singleton_append,
    List.argmin_cons]
  cases hleast : ((s.heardIn P cs).map Offer.candidate).argmin Candidate.rank with
  | none => rfl
  | some c =>
    obtain ⟨o, ho, rfl⟩ := List.mem_map.1 (List.argmin_mem hleast)
    have hle := hnone o ho
    rw [← h.rank_eq hlength o ho] at hle
    exact if_neg (not_lt.2 hle)

/-- Otherwise the leaf ends with the best of those announced. -/
theorem InCycle.selectsBest (hlength : s.route.preferredParents.length < 255) (h : InCycle P s cs)
    (hheard : s.heardIn P cs ≠ []) (hbetter : s.route.bestParent.valid →
      ∃ o ∈ s.heardIn P cs, o.rank s.route.preferredParents < s.route.bestParent.rank) :
    (runFrom (call P) s cs).SelectsBest (s.heardIn P cs) := by
  obtain ⟨hpreferred, hbest⟩ := h.best?_eq hlength
  have hrank := h.rank_eq hlength
  cases ht : (runFrom (call P) s cs).best? with
  | none =>
    rw [ht, eq_comm, List.argmin_eq_none, List.append_eq_nil_iff, List.map_eq_nil_iff] at hbest
    exact absurd hbest.2 hheard
  | some best =>
    obtain ⟨hvalid, hbestParent⟩ := best?_eq_some.1 ht
    rw [ht, eq_comm] at hbest
    have hle {o : Offer} (ho : o ∈ s.heardIn P cs) : best.rank ≤ o.rank s.route.preferredParents := by
      rw [← hrank o ho]
      exact List.le_of_mem_argmin (List.mem_append_right _ (List.mem_map_of_mem ho)) hbest
    have hmem : best ∈ (s.heardIn P cs).map Offer.candidate := by
      rcases List.mem_append.1 (List.argmin_mem hbest) with hold | hnew
      · obtain ⟨hstart, rfl⟩ := best?_eq_some.1 (Option.mem_toList.1 hold)
        obtain ⟨o, ho, hlt⟩ := hbetter hstart
        exact absurd (hle ho) (not_le.2 hlt)
      · exact hnew
    obtain ⟨o, ho, rfl⟩ := List.mem_map.1 hmem
    refine ⟨hvalid, o, ho, hbestParent, fun o' ho' => ?_⟩
    rw [hpreferred, ← hrank o ho]
    exact hle ho'

/-- The order of the announcements never matters to the rank of the candidate.  The candidate is the best of
those announced if and only if the leaf began without one, or one of those announced is better than the one it
began with, or is this one again. -/
theorem selectsBest_iff (hlength : s.route.preferredParents.length < 255) (h : InCycle P s cs)
    (hheard : s.heardIn P cs ≠ []) :
    ((runFrom (call P) s cs).SelectsBest (s.heardIn P cs) ∧
        ∀ cs', InCycle P s cs' → (s.heardIn P cs').Perm (s.heardIn P cs) →
          (runFrom (call P) s cs').route.bestParent.rank = (runFrom (call P) s cs).route.bestParent.rank) ↔
      (s.route.bestParent.valid →
        (∃ o ∈ s.heardIn P cs, o.rank s.route.preferredParents < s.route.bestParent.rank) ∨
          ∃ o ∈ s.heardIn P cs, o.candidate = s.route.bestParent) := by
  have hrank := h.rank_eq hlength
  constructor
  · rintro ⟨⟨-, o, ho, hchosen, -⟩, -⟩ hold
    by_contra hstale
    rw [not_or] at hstale
    have hkept := h.kept hlength hold fun o' ho' => not_lt.1 fun hlt => hstale.1 ⟨o', ho', hlt⟩
    exact hstale.2 ⟨o, ho, hchosen.symm.trans (best?_eq_some.1 hkept).2⟩
  · intro hfresh
    have hselects : (runFrom (call P) s cs).SelectsBest (s.heardIn P cs) := by
      by_cases hbetter : s.route.bestParent.valid →
          ∃ o ∈ s.heardIn P cs, o.rank s.route.preferredParents < s.route.bestParent.rank
      · exact h.selectsBest hlength hheard hbetter
      · -- the candidate is kept, and was announced again
        obtain ⟨hold, hnone⟩ := Classical.not_imp.1 hbetter
        have hle {o : Offer} (ho : o ∈ s.heardIn P cs) :
            s.route.bestParent.rank ≤ o.rank s.route.preferredParents :=
          not_lt.1 fun hlt => hnone ⟨o, ho, hlt⟩
        obtain ⟨o, ho, hagain⟩ := (hfresh hold).resolve_left hnone
        obtain ⟨hvalid, hkept⟩ := best?_eq_some.1 (h.kept hlength hold fun o' ho' => hle ho')
        refine ⟨hvalid, o, ho, hkept.trans hagain.symm, fun o' ho' => ?_⟩
        rw [(h.best?_eq hlength).1, ← hrank o ho, hagain]
        exact hle ho'
    refine ⟨hselects, fun cs' h' hperm => ?_⟩
    have hsame := h.rank_unique hlength h' hperm
    rw [best?_eq_some.2 ⟨hselects.valid, rfl⟩] at hsame
    obtain ⟨c, hc, hceq⟩ := Option.map_eq_some_iff.1 hsame
    rw [(best?_eq_some.1 hc).2, hceq]

end

/-! ## Runs -/

/-- The addresses of a leaf and of two nodes that answer it. -/
def seekerMac : Mac := Octets.fit 6 [1]
def nearMac : Mac := Octets.fit 6 [9]
def farMac : Mac := Octets.fit 6 [8]

/-- An announcement of `responder`, `hops` hops from the bridge. -/
def offerCall (responder : Mac) (hops : UInt8) : Call :=
  .frame (.quiet 200 (Octets.zero 16)) responder (announceTo seekerMac responder nodeRoleRelay hops) (-50)

/-- A leaf with a list of preferred parents. -/
def seekerLeaf (preferred : List Mac) : Remote Unit where
  config := { leafMac := seekerMac }
  route := { preferredParents := preferred }
  files := { handlers := fun _ => none }

/-- A leaf hears a nearer node and the one that it prefers. -/
def offers : List Call := [offerCall nearMac 0, offerCall farMac 2]

/-- A normal leaf, whose parent is the nearer node. -/
def settledLeaf : Remote Unit :=
  let ack := joinAckTo seekerMac joinStatusComplete (Octets.zero 16) 1
  runFrom (call .sample) (seekerLeaf []) (discoverCalls seekerMac nearMac nodeRoleRelay 0 (Octets.zero 16) 0 ++
    [.frame (.quiet 70 (Octets.zero 16)) nearMac ack (-50)])

/-- It is told to look for a parent again. -/
def rediscoveringLeaf : Remote Unit :=
  let config := sealedTo seekerMac settledLeaf.session.sessionKey .config 2 [5, 0, 0]
  settledLeaf.call .sample (.frame (.quiet 80 (Octets.zero 16)) nearMac config (-50))

instance (P : Platform η) (s : Remote η) (c : Call) : Decidable (s.StaysInCycle P c) :=
  inferInstanceAs (Decidable (_ ∧ _))

/-- A leaf without a parent hears two nodes, and chooses the nearer one in whatever order they
answer. -/
theorem selectsBest_seekerLeaf :
    (runFrom (call .sample) (seekerLeaf [farMac]) offers).SelectsBest
        ((seekerLeaf [farMac]).heardIn .sample offers) ∧
      ∀ cs', InCycle .sample (seekerLeaf [farMac]) cs' →
        ((seekerLeaf [farMac]).heardIn .sample cs').Perm ((seekerLeaf [farMac]).heardIn .sample offers) →
        (runFrom (call .sample) (seekerLeaf [farMac]) cs').route.bestParent.rank =
          (runFrom (call .sample) (seekerLeaf [farMac]) offers).route.bestParent.rank := by
  have hrun : Admits (StaysInCycle .sample) (call .sample) (seekerLeaf [farMac]) offers ∧
      ((seekerLeaf [farMac]).heardIn .sample offers).length = 2 := by decide +kernel
  refine (selectsBest_iff (by decide) hrun.1 fun hnil => ?_).2 nofun
  rw [hnil] at hrun
  cases hrun.2

/-- The leaf hears nothing but the farther node, and keeps the nearer one, which may be gone. -/
theorem not_selectsBest_rediscoveringLeaf :
    settledLeaf.session.normal ∧ rediscoveringLeaf.discovery.discovering ∧
      ¬ rediscoveringLeaf.discovery.sweepComplete ∧ InCycle .sample rediscoveringLeaf [offerCall farMac 2] ∧
      (rediscoveringLeaf.heardIn .sample [offerCall farMac 2]).map Offer.senderMac = [farMac] ∧
      ¬ (runFrom (call .sample) rediscoveringLeaf [offerCall farMac 2]).SelectsBest
        (rediscoveringLeaf.heardIn .sample [offerCall farMac 2]) := by
  have hrun : settledLeaf.session.normal ∧ rediscoveringLeaf.discovery.discovering ∧
      ¬ rediscoveringLeaf.discovery.sweepComplete ∧
      Admits (StaysInCycle .sample) (call .sample) rediscoveringLeaf [offerCall farMac 2] ∧
      (rediscoveringLeaf.heardIn .sample [offerCall farMac 2]).map Offer.senderMac = [farMac] ∧
      (rediscoveringLeaf.heardIn .sample [offerCall farMac 2]).map (·.candidate.hopsToBridge) = [2] ∧
      (runFrom (call .sample) rediscoveringLeaf [offerCall farMac 2]).route.bestParent.hopsToBridge = 0 := by
    decide +kernel
  obtain ⟨hnormal, hdiscovering, hsweep, hcycle, hheard, hhops, hkept⟩ := hrun
  refine ⟨hnormal, hdiscovering, hsweep, hcycle, hheard, fun hselects => ?_⟩
  obtain ⟨o, ho, hbest, -⟩ := hselects.least
  have hhop : o.candidate.hopsToBridge ∈ [2] := hhops ▸ List.mem_map_of_mem ho
  rw [hbest, List.mem_singleton.1 hhop] at hkept
  cases hkept

end Remote

end EspTree
