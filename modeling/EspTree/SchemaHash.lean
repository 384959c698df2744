import EspTree.Lib.System
import EspTree.Remote.Moves
import EspTree.Remote.Steady

/-!
# The schema hash of a leaf during one boot

Each `JOIN` carries a hash of what the leaf would report about itself, so that a bridge that has it cached need
not ask.  The model of the chip and the build of the firmware are hashed as they were last reported, and they
are empty until the bridge has asked for the identity: the first `JOIN` of a boot has another hash than those
that come later.

`joinHashes_stable` shows that nothing else changes the hash.

`StableHash` is the invariant of a run: all hashes that were sent are the one that the leaf would
send now.  A call keeps it if it does not report the identity in another form than before, and
`KeepsReport` says which calls these are by the type of the frame: only an answer to a request for
the identity reports it.

The counterexample is an ordinary exchange.  A leaf joins, answers the request of the bridge, is told
to leave and joins again; the two `JOIN`s carry different hashes although nothing about the leaf has
changed.
-/

namespace EspTree

open Wire FileReceiver Transition

/-- The part of an identity that `send_identity_descriptor_` fills in. -/
def Identity.build (i : Identity) : UInt32 × Bytes × Bytes := (i.chipModel, i.buildDate, i.buildTime)

/-- Of what was reported, only the chip and the build are hashed. -/
theorem schemaBytes_congr {i reported reported' : Identity} (schemas : List EntitySchema)
    (h : reported.build = reported'.build) : schemaBytes i reported schemas = schemaBytes i reported' schemas := by
  obtain ⟨hchip, hrest⟩ := Prod.mk.inj h
  obtain ⟨hdate, htime⟩ := Prod.mk.inj hrest
  rw [schemaBytes, schemaBytes, hchip, hdate, htime]

namespace Remote

variable {η : Type}

/-- The hashes of the `JOIN` frames that the leaf has sent. -/
def joinHashes (s : Remote η) : List (Octets 32) :=
  s.radio.effects.filterMap (Effect.joinHash? s.config.leafMac)

/-- The leaf has put one hash in all its `JOIN` frames, and would put it in the next. -/
def StableHash (P : Platform η) (s : Remote η) : Prop := ∀ hash ∈ s.joinHashes, hash = s.schemaHash P

/-- The call does not fill in what was hashed as something else. -/
def KeepsReport (P : Platform η) (s : Remote η) (c : Call) : Prop :=
  s.AnswersIdentity P c → s.config.identity.build = s.reported.build

section

variable {P : Platform η} {s t : Remote η}

/-- The hash depends on what was reported only through the build. -/
theorem schemaHash_report {reported : Identity} (h : reported.build = s.reported.build) :
    ({ s with reported := reported } : Remote η).schemaHash P = s.schemaHash P := by
  rw [schemaHash_eq, schemaHash_eq]
  exact congrArg P.sha256 (schemaBytes_congr _ h)

/-- What keeps the identity, the report and the entities keeps the hash. -/
theorem StableHash.steady (hs : s.StableHash P) (h : Steady P s t) : t.StableHash P := by
  obtain ⟨new, hnew, hjoins⟩ := h.joins
  intro hash hhash
  rw [joinHashes, hnew, h.config, List.filterMap_append, List.mem_append] at hhash
  rw [h.schemaHash]
  rcases hhash with hhash | hhash
  · obtain ⟨eff, heff, hjoin⟩ := List.mem_filterMap.1 hhash
    exact hjoins eff heff hash hjoin
  · exact hs hash hhash

/-- A call keeps the hash of the boot, unless it reports something else. -/
theorem StableHash.call (hs : s.StableHash P) {c : Call} (hkeeps : s.KeepsReport P c) :
    (s.call P c).StableHash P := by
  cases call_turn P s c with
  | steady _ h => exact hs.steady h
  | announced _ h _ =>
    refine StableHash.steady (fun hash hhash => ?_) h
    exact (hs hash hhash).trans (schemaHash_congr rfl rfl rfl).symm
  | reported _ hanswers h =>
    refine StableHash.steady (fun hash hhash => ?_) h
    exact (hs hash hhash).trans (schemaHash_report (hkeeps hanswers)).symm

/-- A call that brings no request for a schema. -/
theorem keepsReport_of_type {c : Call} (h : (c.frame?).all fun f => f.type? != some .schemaRequest) :
    s.KeepsReport P c := by
  rintro ⟨f, hf, hasks⟩
  rw [hf, Option.all_some, hasks.type] at h
  cases h

/-- All `JOIN` frames of a boot carry one hash, unless the leaf is asked for its identity and this
is not what it has reported before.  The hash covers what was reported last of the chip and the
build, and that is set when the identity is sent, not when the leaf starts. -/
theorem joinHashes_stable (h : Reachable Registered (KeepsReport P) (call P) s) :
    s.StableHash P ∧ ∀ hash ∈ s.joinHashes, ∀ hash' ∈ s.joinHashes, hash = hash' := by
  have hstable : s.StableHash P := by
    refine h.invariant (fun s hs => ?_) fun s c hs hkeeps => hs.call hkeeps
    intro hash hhash
    rw [joinHashes, hs.session.2.2.2] at hhash
    cases hhash
  exact ⟨hstable, fun hash hhash hash' hhash' => (hstable hash hhash).trans (hstable hash' hhash').symm⟩

end

/-! ## Runs -/

/-- A platform whose hash tells some inputs apart. -/
def Platform.hashing : Platform Unit :=
  { Platform.sample with sha256 := fun data => Octets.fit 32 [data.foldl (fun h b => 31 * h + b) 7] }

/-- A leaf that runs on a chip of model 5. -/
def chipLeaf : Remote Unit :=
  setUp { leafMac := Octets.fit 6 [1], identity := { chipModel := 5 } } { handlers := fun _ => none } {}

/-- A frame from the parent of the leaf. -/
def fromParent (now : UInt32) (data : Bytes) : Call :=
  .frame (.quiet now (Octets.zero 16)) (Octets.fit 6 [9]) data (-50)

/-- The leaf joins. -/
def chipJoins : List Call :=
  discoverCalls (Octets.fit 6 [1]) (Octets.fit 6 [9]) nodeRoleBridge 0 (Octets.zero 16) 0 ++
    [fromParent 70 (joinAckTo (Octets.fit 6 [1]) joinStatusSchemaRefresh (Octets.zero 16) 1)]

/-- It is asked for its identity. -/
def asksChip : Call :=
  fromParent 80 (sealedTo (Octets.fit 6 [1])
    (Crypto.sample.deriveSessionKey (Octets.zero 16) (Octets.zero 16)) .schemaRequest 2
    (SchemaRequest.bytes ⟨descriptorTypeIdentity, 0⟩))

/-- A bridge that has lost it makes it join again. -/
def rejoins : Call :=
  fromParent 90 (plain .sample (Octets.fit 6 [1]) .deauth (hopsMake hopsDirBit 0) 3 none
    (Deauth.bytes ⟨1, 0, 0, Octets.zero 4⟩)).bytes

theorem chipLeaf_registered : Registered chipLeaf := .fresh _ _ _

/-- A leaf that joins twice before it is asked. -/
def rejoinedLeaf : Remote Unit := runFrom (call .hashing) chipLeaf (chipJoins ++ [rejoins])

/-- A leaf that joins twice, without being asked, gives the same hash both times. -/
theorem joinHashes_stable_rejoinedLeaf :
    rejoinedLeaf.joinHashes.length = 2 ∧ rejoinedLeaf.StableHash .hashing ∧
      ∀ hash ∈ rejoinedLeaf.joinHashes, ∀ hash' ∈ rejoinedLeaf.joinHashes, hash = hash' := by
  have hcalls : ∀ c ∈ chipJoins ++ [rejoins], (c.frame?).all fun f => f.type? != some .schemaRequest := by
    decide +kernel
  have hadmits {s : Remote Unit} {cs : List Call}
      (h : ∀ c ∈ cs, (c.frame?).all fun f => f.type? != some .schemaRequest) :
      Admits (KeepsReport .hashing) (call .hashing) s cs := by
    induction cs generalizing s with
    | nil => trivial
    | cons c cs ih =>
      obtain ⟨hc, hcs⟩ := List.forall_mem_cons.1 h
      exact ⟨keepsReport_of_type hc, ih hcs⟩
  exact ⟨by decide +kernel, joinHashes_stable (.runFrom (.start chipLeaf_registered) (hadmits hcalls))⟩

/-- The same leaf, asked for its identity between the two. -/
def askedLeaf : Remote Unit := runFrom (call .hashing) chipLeaf (chipJoins ++ [asksChip, rejoins])

/-- A leaf that is asked for its identity between two joins gives two hashes. -/
theorem not_stableHash_askedLeaf :
    Reachable Registered (fun _ _ => True) (call .hashing) askedLeaf ∧
      ∃ hash ∈ askedLeaf.joinHashes, ∃ hash' ∈ askedLeaf.joinHashes, hash ≠ hash' := by
  constructor
  · have hstart : Reachable Registered (fun _ _ => True) (call .hashing) chipLeaf := .start chipLeaf_registered
    exact hstart.runFrom (by simp [Admits, chipJoins, discoverCalls])
  · decide +kernel

end Remote

end EspTree
