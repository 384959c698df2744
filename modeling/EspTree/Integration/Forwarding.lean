import EspTree.Integration.HubRuns

/-!
# What is passed on

As long as no connection is given up while its receipts are being sent, the frames of each client are passed on in
the order in which the add-on has handled them, each of them once, and the integration reads them in this order.  The
queue in between loses frames in three ways only: it is emptied when it is full, its rest goes when the integration
leaves, and what was read is forgotten when this restarts.  As long as none of this happens, what has been read and
what is queued is what was there before, and then all that was passed on (`Hub.passed_in_order`).

So the add-on and the integration show the same of a remote that one client alone reports, when its reports agree,
nothing of that client is waiting, and the integration has read what was passed on of the remote since it was last
described (`Hub.agree`).  The description itself may have come from a snapshot that was replayed.
-/

namespace EspTree.Integration

open Wire Transition
open AddOn.Rename (Text normalizeMac)

/-! ## Frames that do not mention a remote -/

/-- The remote that an event is about. -/
def Event.about : Event → Option Text
  | .availability ev => some ev.remoteMac
  | .state ev => some ev.remoteMac
  | .schemaChanged _ snapshot => some snapshot.identity.remoteMac
  | .metadataChanged identity _ => some identity.remoteMac
  | .topologyChanged ev => some ev.remoteMac
  | .heartbeat _ => none
  | .unknown => none

def Frame.Mentions (mac : Text) : Frame → Prop
  | .snapshot full => ∃ remote ∈ full.remotes, remote.identity.remoteMac = mac
  | .events batch => ∃ ev ∈ batch, ev.about = some mac

instance (mac : Text) : (frame : Frame) → Decidable (frame.Mentions mac)
  | .snapshot full => inferInstanceAs (Decidable (∃ remote ∈ full.remotes, remote.identity.remoteMac = mac))
  | .events batch => inferInstanceAs (Decidable (∃ ev ∈ batch, ev.about = some mac))

/-- The event describes the remote, whatever was known of it. -/
def Event.Describes (mac : Text) : Event → Prop
  | .schemaChanged _ snapshot => snapshot.identity.remoteMac = mac
  | .metadataChanged identity _ => identity.remoteMac = mac
  | _ => False

def Frame.Describes (mac : Text) : Frame → Prop
  | .snapshot full => ∃ remote ∈ full.remotes, remote.identity.remoteMac = mac
  | .events batch => ∃ ev ∈ batch, ev.Describes mac

namespace Picture

variable {client client' : Client} {mac : Text} {p q : Option Picture}

/-- An event about another remote leaves the picture as it is. -/
theorem tell_of_not_about {ev : Event} (h : ev.about ≠ some mac) : tell client mac p ev = p := by
  cases ev with
  | availability ev => exact if_neg fun heq => h (congrArg some heq)
  | state ev => exact if_neg fun heq => h (congrArg some heq)
  | schemaChanged bridgeMac snapshot => exact if_neg fun heq => h (congrArg some heq)
  | metadataChanged identity runtime => exact if_neg fun heq => h (congrArg some heq)
  | topologyChanged ev => exact if_neg fun heq => h (congrArg some heq)
  | heartbeat ev => rfl
  | unknown => rfl

/-- So does a frame in which the remote does not occur. -/
theorem tellFrame_of_not_mentions {frame : Frame} (h : ¬ frame.Mentions mac) : tellFrame client mac p frame = p := by
  cases frame with
  | snapshot full =>
    have hnone : (full.remotes.reverse.find? fun remote => remote.identity.remoteMac = mac) = none :=
      List.find?_eq_none.mpr fun remote hremote heq =>
        h ⟨remote, List.mem_reverse.mp hremote, of_decide_eq_true heq⟩
    rw [tellFrame, tellSnapshot, hnone]
  | events batch =>
    rw [tellFrame]
    induction batch generalizing p with
    | nil => rfl
    | cons ev batch ih =>
      have hev : ev.about ≠ some mac := fun heq => h ⟨ev, List.mem_cons_self, heq⟩
      rw [List.foldl_cons, tell_of_not_about hev]
      refine ih ?_
      rintro ⟨ev', hev', heq⟩
      exact h ⟨ev', List.mem_cons_of_mem ev hev', heq⟩

/-! ## Descriptions -/

/-- What describes the remote does not depend on what was known of it. -/
theorem tell_of_describes {ev : Event} (h : ev.Describes mac) : tell client mac p ev = tell client mac q ev := by
  cases ev with
  | schemaChanged bridgeMac snapshot => exact (if_pos h).trans (if_pos h).symm
  | metadataChanged identity runtime => exact (if_pos h).trans (if_pos h).symm
  | availability ev => exact h.elim
  | state ev => exact h.elim
  | topologyChanged ev => exact h.elim
  | heartbeat ev => exact h.elim
  | unknown => exact h.elim

/-- After a frame that describes a remote, what was known of it before does not matter. -/
theorem tellFrame_of_describes {frame : Frame} (h : frame.Describes mac) :
    tellFrame client mac p frame = tellFrame client mac q frame := by
  cases frame with
  | snapshot full =>
    rw [tellFrame, tellFrame, tellSnapshot, tellSnapshot]
    cases hfind : full.remotes.reverse.find? fun remote => remote.identity.remoteMac = mac with
    | some remote => rfl
    | none =>
      obtain ⟨remote, hremote, hmac⟩ := h
      exact absurd (decide_eq_true hmac) (List.find?_eq_none.mp hfind remote (List.mem_reverse.mpr hremote))
  | events batch =>
    rw [tellFrame, tellFrame]
    induction batch generalizing p q with
    | nil =>
      obtain ⟨ev, hev, -⟩ := h
      exact absurd hev List.not_mem_nil
    | cons ev batch ih =>
      obtain ⟨ev', hev', hdescribes⟩ := h
      rw [List.foldl_cons, List.foldl_cons]
      rcases List.mem_cons.mp hev' with rfl | hev'
      · rw [tell_of_describes (q := q) hdescribes]
      · exact ih ⟨ev', hev', hdescribes⟩

/-- Whether a client is connected does not matter for what it tells. -/
theorem tellFrame_congr (huuid : client.bridgeUuid = client'.bridgeUuid)
    (hbridge : client.bridgeMac = client'.bridgeMac) (frame : Frame) :
    tellFrame client mac p frame = tellFrame client' mac p frame := by
  have hdescribed (runtime : RemoteRuntime) : described client runtime = described client' runtime := by
    rw [described, described, huuid, hbridge]
  cases frame with
  | snapshot full => simp only [tellFrame, tellSnapshot, hdescribed]
  | events batch =>
    have htell : tell client mac = tell client' mac := by
      funext p ev
      cases ev with
      | availability ev =>
        have havailable : available client ev = available client' ev := by
          funext p
          rw [available, available, huuid]
        rw [tell, tell, havailable]
      | schemaChanged bridgeMac snapshot => rw [tell, tell, hdescribed]
      | metadataChanged identity runtime => rw [tell, tell, hdescribed]
      | state ev => rfl
      | topologyChanged ev => rfl
      | heartbeat ev => rfl
      | unknown => rfl
    rw [tellFrame, tellFrame, htell]

/-! ## Forgetting less -/

/-- A report tells at least as much of what is known better. -/
theorem tell_mono (h : ∀ r ∈ p, r ∈ q) (ev : Event) : ∀ r ∈ tell client mac p ev, r ∈ tell client mac q ev := by
  cases p with
  | none =>
    intro r hr
    cases ev with
    | availability ev =>
      rw [tell, Option.bind_none, ite_self] at hr
      cases hr
    | state ev =>
      rw [tell, Option.bind_none, ite_self] at hr
      cases hr
    | schemaChanged bridgeMac snapshot =>
      rw [tell, Option.mem_def, Option.ite_none_right_eq_some] at hr
      rw [tell, if_pos hr.1]
      exact hr.2
    | metadataChanged identity runtime =>
      rw [tell, Option.mem_def, Option.ite_none_right_eq_some] at hr
      rw [tell, if_pos hr.1]
      exact hr.2
    | topologyChanged ev =>
      rw [tell, Option.map_none, ite_self] at hr
      cases hr
    | heartbeat ev => cases hr
    | unknown => cases hr
  | some r =>
    have hq : q = some r := h r rfl
    rw [hq]
    exact fun _ => id

/-- Who knows more of a remote knows more after each frame. -/
theorem tellFrame_mono (h : ∀ r ∈ p, r ∈ q) (frame : Frame) :
    ∀ r ∈ tellFrame client mac p frame, r ∈ tellFrame client mac q frame := by
  cases frame with
  | snapshot full =>
    rw [tellFrame, tellFrame, tellSnapshot, tellSnapshot]
    cases full.remotes.reverse.find? fun remote => remote.identity.remoteMac = mac with
    | some remote => exact fun _ => id
    | none => exact h
  | events batch =>
    rw [tellFrame, tellFrame]
    induction batch generalizing p q with
    | nil => exact h
    | cons ev batch ih => exact ih (tell_mono h ev)

/-- What goes with a bridge is forgotten, and nothing is learned. -/
theorem leave_le : ∀ r ∈ leave client p, r ∈ p := fun _ hr => (Option.filter_eq_some_iff.mp hr).1

theorem keep_le {frame : Frame} : ∀ r ∈ keep client mac frame p, r ∈ p := by
  rw [keep]
  split_ifs
  · exact leave_le
  · exact fun _ => id

end Picture

/-- The frames that the add-on has gone through. -/
def heard (log : List Entry) : List Told :=
  log.filterMap fun
    | .told t => some t
    | .gone _ => none

namespace Picture

variable {mac : Text}

/-- What the add-on knows of a remote, its frames tell. -/
theorem told_of_noted {log : List Entry} {r : Picture} (h : noted mac log = some r) :
    told mac (heard log) = some r := by
  have hfold : ∀ (log : List Entry) (p q : Option Picture), (∀ r ∈ p, r ∈ q) →
      ∀ r ∈ log.foldl (note mac) p, r ∈ (heard log).foldl (fun p t => tellFrame t.client mac p t.frame) q := by
    intro log
    induction log with
    | nil => exact fun p q hle => hle
    | cons e log ih =>
      intro p q hle
      cases e with
      | told t => exact ih _ _ fun r hr => tellFrame_mono hle t.frame r (keep_le r hr)
      | gone client => exact ih _ _ fun r hr => hle r (leave_le r hr)
  exact hfold log none none (fun _ => id) r h

/-- Only the frames that mention a remote tell something of it. -/
theorem told_filter {frames : List Told} {own : Told → Bool}
    (h : ∀ t ∈ frames, t.frame.Mentions mac → own t = true) : told mac (frames.filter own) = told mac frames := by
  have hfold : ∀ (frames : List Told) (p : Option Picture), (∀ t ∈ frames, t.frame.Mentions mac → own t = true) →
      (frames.filter own).foldl (fun p t => tellFrame t.client mac p t.frame) p =
        frames.foldl (fun p t => tellFrame t.client mac p t.frame) p := by
    intro frames
    induction frames with
    | nil => exact fun _ _ => rfl
    | cons t frames ih =>
      intro p hall
      obtain ⟨ht, hall⟩ := List.forall_mem_cons.mp hall
      by_cases hown : own t = true
      · rw [List.filter_cons, if_pos hown, List.foldl_cons, List.foldl_cons]
        exact ih _ hall
      · rw [List.filter_cons, if_neg hown, List.foldl_cons, tellFrame_of_not_mentions fun hm => hown (ht hm)]
        exact ih _ hall
  exact hfold frames none h

end Picture

/-- The same report of the same bridge. -/
structure Told.Same (r t : Told) : Prop where
  frame : r.frame = t.frame
  bridgeUuid : r.client.bridgeUuid = t.client.bridgeUuid
  bridgeMac : r.client.bridgeMac = t.client.bridgeMac

/-- Of the frames on a remote, all that were passed on since one that describes it have been read; this one may have
been read as a snapshot that was replayed. -/
def UpToDate (mac : Text) (seen passed : List Told) : Prop :=
  ∃ (r t : Told) (since : List Told), r.Same t ∧ t.frame.Describes mac ∧
    r :: since <:+ seen.filter (fun t => t.frame.Mentions mac) ∧
      t :: since <:+ passed.filter fun t => t.frame.Mentions mac

namespace Picture

variable {mac : Text}

/-- What frames tell of a remote depends on those since it was last described. -/
theorem told_of_upToDate {seen passed : List Told} (h : UpToDate mac seen passed) :
    told mac seen = told mac passed := by
  obtain ⟨r, t, since, hsame, hdescribes, ⟨before, hseen⟩, ⟨before', hpassed⟩⟩ := h
  have hmentions (frames : List Told) : told mac (frames.filter fun t => t.frame.Mentions mac) = told mac frames :=
    told_filter fun t _ hm => decide_eq_true hm
  have hstart (p q : Option Picture) : tellFrame r.client mac p r.frame = tellFrame t.client mac q t.frame := by
    rw [hsame.frame, tellFrame_congr hsame.bridgeUuid hsame.bridgeMac, tellFrame_of_describes hdescribes]
  calc told mac seen = told mac (before ++ r :: since) := by rw [hseen, hmentions]
    _ = told mac (before' ++ t :: since) := by
      rw [told, told, List.foldl_append, List.foldl_append, List.foldl_cons, List.foldl_cons, hstart]
    _ = told mac passed := by rw [hpassed, hmentions]

end Picture

/-! ## In order, and once -/

/-- The frame is of this client. -/
def Told.isOf (c : Nat) (t : Told) : Bool := t.source = some c

theorem heard_append (log log' : List Entry) : heard (log ++ log') = heard log ++ heard log' := List.filterMap_append

/-- The frames of a log are its entries for frames. -/
theorem mem_heard {log : List Entry} {t : Told} : t ∈ heard log ↔ Entry.told t ∈ log := by
  rw [heard, List.mem_filterMap]
  constructor
  · rintro ⟨e, he, hsome⟩
    cases e with
    | told t' =>
      cases hsome
      exact he
    | gone client => cases hsome
  · exact fun h => ⟨_, h, rfl⟩

namespace Hub

variable {norm norm' : Text → Text} {bridges remotes : Set Text} {s : Hub} {mac : Text}

/-- What of a client is still to be passed on. -/
def owed (s : Hub) (c : Nat) : List Told :=
  (s.waiting c).toList.map fun frame => { source := some c, client := s.clients c, frame := frame }

/-- Every client has its frames passed on in order, and no frame is of nobody. -/
structure Forwarded (s : Hub) : Prop where
  inOrder : ∀ c, (heard s.handled).filter (Told.isOf c) = s.passed.filter (Told.isOf c) ++ s.owed c
  sourced : ∀ t ∈ s.passed, ∃ c, t.source = some c

section

variable {c c' : Nat} {frames : List Told} (hframes : ∀ t ∈ frames, t.source = some c)

include hframes

theorem filter_isOf_self : frames.filter (Told.isOf c) = frames :=
  List.filter_eq_self.mpr fun t ht => decide_eq_true (hframes t ht)

theorem filter_isOf_of_ne (hc : c' ≠ c) : frames.filter (Told.isOf c') = [] := by
  rw [List.filter_eq_nil_iff]
  intro t ht hof
  exact hc (Option.some.inj ((of_decide_eq_true hof).symm.trans (hframes t ht)))

/-- More frames of one client are passed on. -/
theorem sourced_append {passed : List Told} (h : ∀ t ∈ passed, ∃ c, t.source = some c) :
    ∀ t ∈ passed ++ frames, ∃ c, t.source = some c :=
  List.forall_mem_append.mpr ⟨h, fun t ht => ⟨c, hframes t ht⟩⟩

end

/-- A client that is not sending receipts owes no frame. -/
theorem owed_of_none {c : Nat} (hidle : s.waiting c = none) : s.owed c = [] := by
  rw [owed, hidle]
  rfl

/-- One that is owes the frame that waits for them. -/
theorem owed_of_some {c : Nat} {frame : Frame} (hwait : s.waiting c = some frame) :
    s.owed c = [{ source := some c, client := s.clients c, frame := frame }] := by
  rw [owed, hwait]
  rfl

/-- Another state of a client that owes nothing. -/
theorem owed_updateClient {c : Nat} (client : Client) (hidle : s.waiting c = none) (c' : Nat) :
    Hub.owed { s with clients := Function.update s.clients c client } c' = s.owed c' := by
  rcases eq_or_ne c' c with rfl | hc
  · rw [owed_of_none hidle]
    exact owed_of_none hidle
  · rw [owed, owed]
    dsimp only
    rw [Function.update_of_ne hc]

theorem Forwarded.initial (h : Initial s) : Forwarded s := by
  obtain ⟨clients, runtime, -, rfl⟩ := h
  refine ⟨fun c => rfl, ?_⟩
  rintro t ⟨⟩

/-- A frame of `c` is handled, and it waits or is passed on. -/
theorem Forwarded.frame {c : Nat} {frame : Frame} {s' : Hub} (hidle : s.waiting c = none)
    (hhandled : s'.handled = s.handled ++ [.told { source := some c, client := s.clients c, frame := frame }])
    (hclients : s'.clients = s.clients)
    (hnext : s'.passed = s.passed ∧ s'.waiting = Function.update s.waiting c (some frame) ∨
      s'.passed = s.passed ++ [{ source := some c, client := s.clients c, frame := frame }] ∧ s'.waiting = s.waiting)
    (h : Forwarded s) : Forwarded s' := by
  have hheard : heard s'.handled = heard s.handled ++ [{ source := some c, client := s.clients c, frame := frame }] := by
    rw [hhandled, heard_append]
    rfl
  have hown : ∀ t ∈ [({ source := some c, client := s.clients c, frame := frame } : Told)], t.source = some c :=
    List.forall_mem_singleton.mpr rfl
  refine ⟨fun c' => ?_, ?_⟩
  · have hold := h.inOrder c'
    rw [hheard, List.filter_append, hold]
    rcases eq_or_ne c' c with rfl | hc
    · rw [filter_isOf_self hown, owed_of_none hidle, List.append_nil]
      rcases hnext with ⟨hpassed, hwaiting⟩ | ⟨hpassed, hwaiting⟩
      · have hwait : s'.waiting c' = some frame := by rw [hwaiting, Function.update_self]
        rw [hpassed, owed_of_some hwait, hclients]
      · have hwait : s'.waiting c' = none := by rw [hwaiting, hidle]
        rw [hpassed, owed_of_none hwait, List.append_nil, List.filter_append, filter_isOf_self hown]
    · rw [filter_isOf_of_ne hown hc, List.append_nil]
      rcases hnext with ⟨hpassed, hwaiting⟩ | ⟨hpassed, hwaiting⟩
      · rw [hpassed, owed, owed, hwaiting, Function.update_of_ne hc, hclients]
      · rw [hpassed, List.filter_append, filter_isOf_of_ne hown hc, List.append_nil, owed, owed, hwaiting, hclients]
  · rcases hnext with ⟨hpassed, -⟩ | ⟨hpassed, -⟩
    · rw [hpassed]
      exact h.sourced
    · rw [hpassed]
      exact sourced_append hown h.sourced

/-- The receipts of `c` are sent. -/
theorem Forwarded.receipts {c : Nat} {frame : Frame} (hwait : s.waiting c = some frame) (h : Forwarded s) :
    Forwarded (Hub.pass { s with waiting := Function.update s.waiting c none }
      { source := some c, client := s.clients c, frame := frame }) := by
  have hown : ∀ t ∈ [({ source := some c, client := s.clients c, frame := frame } : Told)], t.source = some c :=
    List.forall_mem_singleton.mpr rfl
  refine ⟨fun c' => ?_, sourced_append hown h.sourced⟩
  have hold := h.inOrder c'
  rw [pass]
  dsimp only
  rw [hold, List.filter_append]
  rcases eq_or_ne c' c with rfl | hc
  · rw [owed_of_some hwait, filter_isOf_self hown, owed_of_none (Function.update_self ..), List.append_nil]
  · rw [filter_isOf_of_ne hown hc, List.append_nil, owed, owed]
    dsimp only
    rw [Function.update_of_ne hc]

/-- The connection of `c` is lost, with nothing waiting. -/
theorem Forwarded.lost {c : Nat} {client : Client} {log : List Entry} {rest : List Told} {s' : Hub}
    (hidle : s.waiting c = none) (hhandled : s'.handled = s.handled ++ log) (hpassed : s'.passed = s.passed ++ rest)
    (hlog : heard log = rest) (hrest : ∀ t ∈ rest, t.source = some c)
    (hclients : s'.clients = Function.update s.clients c client)
    (hwaiting : s'.waiting = Function.update s.waiting c none) (h : Forwarded s) : Forwarded s' := by
  have howed (c' : Nat) : s'.owed c' = s.owed c' := by
    rcases eq_or_ne c' c with rfl | hc
    · rw [owed_of_none hidle, owed_of_none]
      rw [hwaiting, Function.update_self]
    · rw [owed, owed, hwaiting, hclients, Function.update_of_ne hc, Function.update_of_ne hc]
  refine ⟨fun c' => ?_, ?_⟩
  · rw [hhandled, hpassed, heard_append, hlog, List.filter_append, List.filter_append, h.inOrder, howed]
    rcases eq_or_ne c' c with rfl | hc
    · rw [owed_of_none hidle, List.append_nil, List.append_nil]
    · rw [filter_isOf_of_ne hrest hc, List.append_nil, List.append_nil]
  · rw [hpassed]
    exact sourced_append hrest h.sourced

/-- Every step keeps the frames of a client in order: what is passed on is what was owed, and a
client owes one frame at most. -/
theorem Forwarded.step (haddr : Addressing norm bridges remotes) {a : Act} (ha : Undisturbed bridges remotes s a)
    (hgood : Good norm norm' bridges remotes s) (h : Forwarded s) : Forwarded (s.step norm norm' a) := by
  obtain ⟨ha, hsettled⟩ := ha
  cases a with
  | authenticate c bridgeMac =>
    exact ⟨fun c' => (h.inOrder c').trans (congrArg _ (owed_updateClient _ (hgood.idle ha.1) c').symm), h.sourced⟩
  | connect c =>
    exact ⟨fun c' => (h.inOrder c').trans (congrArg _ (owed_updateClient _ (hgood.idle ha.1) c').symm), h.sourced⟩
  | frame c frame now =>
    obtain ⟨hconnected, hidle, hframe⟩ := ha
    have hclients : Function.update s.clients c ((s.clients c).take norm frame) = s.clients := by
      rw [take_eq haddr (hgood.addressed c hconnected) hframe, Function.update_eq_self]
    simp only [Hub.step]
    split_ifs
    · exact h.frame hidle rfl hclients (.inl ⟨rfl, rfl⟩)
    · exact h.frame hidle rfl hclients (.inr ⟨rfl, rfl⟩)
  | receipts c =>
    simp only [Hub.step]
    split
    · exact h
    next frame hwait => exact h.receipts hwait
  | lost c now =>
    simp only [Hub.step]
    split_ifs
    · exact h.lost (hsettled c now rfl) rfl (List.append_nil _).symm rfl (fun t ht => absurd ht List.not_mem_nil) rfl rfl
    · exact h.lost (hsettled c now rfl) rfl rfl rfl (fun t ht => (List.mem_singleton.mp ht) ▸ rfl) rfl rfl
  | join => exact ⟨h.inOrder, h.sourced⟩
  | leave => exact ⟨h.inOrder, h.sourced⟩
  | read now =>
    simp only [Hub.step]
    split
    · exact ⟨h.inOrder, h.sourced⟩
    · exact h
  | restart runtime => exact ⟨h.inOrder, h.sourced⟩

/-- The invariant holds in every state of an undisturbed run. -/
theorem forwarded_of_reachable (haddr : Addressing norm bridges remotes) (haddr' : Addressing norm' bridges remotes)
    (hs : Reachable Initial (Undisturbed bridges remotes) (step norm norm') s) :
    Good norm norm' bridges remotes s ∧ Forwarded s :=
  hs.invariant (I := fun s => Good norm norm' bridges remotes s ∧ Forwarded s)
    (fun _ h => ⟨.initial h, .initial h⟩) fun _ _ h ha => ⟨h.1.step haddr haddr' ha.1, h.2.step haddr ha h.1⟩

/-! ## The queue to the integration -/

/-- What the integration has read and what is queued for it has been passed on, in this order. -/
def Fed (s : Hub) : Prop :=
  ∀ c, ((s.seen ++ s.feed.getD []).filter (Told.isOf c)).Sublist (s.passed.filter (Told.isOf c))

theorem Fed.congr {s' : Hub} (hseen : s'.seen = s.seen) (hfeed : s'.feed = s.feed) (hpassed : s'.passed = s.passed)
    (h : Fed s) : Fed s' := by
  intro c
  rw [hseen, hfeed, hpassed]
  exact h c

/-- What has been read of a client is a part of what was passed on, in the same order. -/
theorem Fed.seen (h : Fed s) (c : Nat) :
    (s.seen.filter (Told.isOf c)).Sublist (s.passed.filter (Told.isOf c)) := by
  refine List.Sublist.trans ?_ (h c)
  rw [List.filter_append]
  exact List.sublist_append_left _ _

/-- A frame that is passed on goes to the end of the queue, and a queue that is full is emptied
before it. -/
theorem Fed.pass (t : Told) (h : Fed s) : Fed (s.pass t) := by
  intro c
  rw [Hub.pass]
  dsimp only
  rw [List.filter_append s.passed]
  cases hfeed : s.feed with
  | none =>
    rw [Option.map_none, Option.getD_none, List.append_nil]
    exact (h.seen c).trans (List.sublist_append_left _ _)
  | some q =>
    have hq := h c
    rw [hfeed, Option.getD_some] at hq
    rw [Option.map_some, Option.getD_some, enqueue]
    split_ifs
    -- the queue is emptied, and what was read stays
    · rw [List.filter_append]
      exact (h.seen c).append (List.Sublist.refl _)
    · rw [← List.append_assoc, List.filter_append]
      exact hq.append (List.Sublist.refl _)

/-- Every step keeps this. -/
theorem Fed.step (a : Act) (h : Fed s) : Fed (s.step norm norm' a) := by
  have hdrop (c : Nat) : (([] ++ s.feed.getD []).filter (Told.isOf c)).Sublist (s.passed.filter (Told.isOf c)) := by
    refine List.Sublist.trans ?_ (h c)
    rw [List.nil_append, List.filter_append]
    exact List.sublist_append_right _ _
  cases a with
  | authenticate c bridgeMac => exact h
  | connect c => exact h
  | frame c frame now =>
    simp only [Hub.step]
    split_ifs
    · exact h.congr rfl rfl rfl
    · exact Fed.pass _ (h.congr rfl rfl rfl)
  | receipts c =>
    simp only [Hub.step]
    split
    · exact h
    · exact Fed.pass _ (h.congr rfl rfl rfl)
  | lost c now =>
    simp only [Hub.step]
    split_ifs
    · exact h.congr rfl rfl rfl
    · exact Fed.pass _ (h.congr rfl rfl rfl)
  | join =>
    -- the snapshots that are replayed are of no client
    intro c
    have hreplay : (s.manager.replay norm).filter (Told.isOf c) = [] := by
      rw [List.filter_eq_nil_iff]
      intro t ht
      obtain ⟨entry, -, rfl⟩ := List.mem_map.mp ht
      exact fun hof => Option.some_ne_none c (of_decide_eq_true hof).symm
    rw [Hub.step, Option.getD_some, List.filter_append, hreplay, List.append_nil]
    exact h.seen c
  | leave =>
    intro c
    rw [Hub.step, Option.getD_none, List.append_nil]
    exact h.seen c
  | read now =>
    simp only [Hub.step]
    split
    next t rest hfeed =>
      intro c
      have hq := h c
      rw [hfeed, Option.getD_some] at hq
      rw [Option.getD_some, List.append_assoc, List.singleton_append]
      exact hq
    · exact h
  | restart runtime => exact hdrop

/-- The integration stays as it is, and there is room in its queue. -/
def Steady (s : Hub) : Act → Prop
  | .join | .leave | .restart _ => False
  | _ => ∀ q ∈ s.feed, q.length < 256

/-- What is passed on comes to the end of what has been read and is queued. -/
def Gains (s s' : Hub) : Prop :=
  ∀ q, s.feed = some q →
    ∃ more q', s'.passed = s.passed ++ more ∧ s'.feed = some q' ∧ s'.seen ++ q' = s.seen ++ q ++ more

theorem Gains.of_eq {s' : Hub} (hseen : s'.seen = s.seen) (hfeed : s'.feed = s.feed) (hpassed : s'.passed = s.passed) :
    Gains s s' := by
  intro q hq
  refine ⟨[], q, ?_, hfeed.trans hq, ?_⟩
  · rw [hpassed, List.append_nil]
  · rw [hseen, List.append_nil]

/-- What two steps pass on and have read together. -/
theorem Gains.trans {s' s'' : Hub} (h : Gains s s') (h' : Gains s' s'') : Gains s s'' := by
  intro q hq
  obtain ⟨more, q', hpassed, hfeed, hseen⟩ := h q hq
  obtain ⟨more', q'', hpassed', hfeed', hseen'⟩ := h' q' hfeed
  refine ⟨more ++ more', q'', ?_, hfeed', ?_⟩
  · rw [hpassed', hpassed, List.append_assoc]
  · rw [hseen', hseen, List.append_assoc]

/-- A frame that is passed on while the queue has room is not lost. -/
theorem Gains.pass {s' : Hub} (hseen : s'.seen = s.seen) (hfeed : s'.feed = s.feed) (hpassed : s'.passed = s.passed)
    (hroom : ∀ q ∈ s.feed, q.length < 256) (t : Told) : Gains s (s'.pass t) := by
  intro q hq
  refine ⟨[t], q ++ [t], ?_, ?_, ?_⟩
  · rw [Hub.pass, hpassed]
  · rw [Hub.pass, hfeed, hq, Option.map_some, enqueue, if_neg (Nat.not_le.mpr (hroom q hq))]
  · rw [Hub.pass, hseen, List.append_assoc]

/-- A steady step loses nothing. -/
theorem Steady.gains {a : Act} (ha : s.Steady a) : Gains s (s.step norm norm' a) := by
  cases a with
  | authenticate c bridgeMac => exact .of_eq rfl rfl rfl
  | connect c => exact .of_eq rfl rfl rfl
  | frame c frame now =>
    simp only [Hub.step]
    split_ifs
    · exact .of_eq rfl rfl rfl
    · exact .pass rfl rfl rfl ha _
  | receipts c =>
    simp only [Hub.step]
    split
    · exact .of_eq rfl rfl rfl
    · exact .pass rfl rfl rfl ha _
  | lost c now =>
    simp only [Hub.step]
    split_ifs
    · exact .of_eq rfl rfl rfl
    · exact .pass rfl rfl rfl ha _
  | join => exact ha.elim
  | leave => exact ha.elim
  | read now =>
    simp only [Hub.step]
    split
    next t rest hfeed =>
      intro q hq
      obtain rfl := Option.some.inj (hfeed.symm.trans hq)
      refine ⟨[], rest, (List.append_nil _).symm, rfl, ?_⟩
      rw [List.append_nil, List.append_assoc, List.singleton_append]
    · exact .of_eq rfl rfl rfl
  | restart runtime => exact ha.elim

/-- A run of steady steps loses nothing. -/
theorem gains_of_admits {acts : List Act} (h : Admits Steady (step norm norm') s acts) :
    Gains s (runFrom (step norm norm') s acts) := by
  induction acts generalizing s with
  | nil => exact .of_eq rfl rfl rfl
  | cons a acts ih => exact (Steady.gains h.1).trans (ih h.2)

/-- The frames of a client are passed on in order, each of them once: what is missing is being receipted.  Of those
that were passed on the integration reads and is to read a part, in the same order.  Nothing of this part is missing
that is passed on while the integration stays and there is room in its queue. -/
theorem passed_in_order (haddr : Addressing norm bridges remotes) (haddr' : Addressing norm' bridges remotes)
    (hs : Reachable Initial (Undisturbed bridges remotes) (step norm norm') s) :
    (∀ c, (heard s.handled).filter (Told.isOf c) = s.passed.filter (Told.isOf c) ++ s.owed c) ∧
      (∀ c, ((s.seen ++ s.feed.getD []).filter (Told.isOf c)).Sublist (s.passed.filter (Told.isOf c))) ∧
        ∀ acts, Admits Steady (step norm norm') s acts → ∀ q, s.feed = some q →
          ∃ more q', (runFrom (step norm norm') s acts).passed = s.passed ++ more ∧
            (runFrom (step norm norm') s acts).feed = some q' ∧
              (runFrom (step norm norm') s acts).seen ++ q' = s.seen ++ q ++ more := by
  have hfed : Fed s := by
    refine hs.invariant (I := Fed) (fun s h => ?_) fun s a h _ => h.step a
    obtain ⟨clients, runtime, -, rfl⟩ := h
    exact fun c => List.Sublist.refl _
  exact ⟨(forwarded_of_reachable haddr haddr' hs).2.inOrder, hfed, fun acts h => gains_of_admits h⟩

/-- The client of the bridge. -/
def firstClient : Client := { bridgeUuid := ['u'], bridgeMac := macColonString (Octets.fit 6 [1]), connected := true }

/-- The bridge reports a state. -/
def firstState : Frame :=
  .events [.state {
    remoteMac := macColonString (Octets.fit 6 [2]), bridgeMac := macColonString (Octets.fit 6 [1]), sessionId := ['s'],
    txCounter := 4, stateTxCounter := 4 }]

/-- The state waits for its receipt. -/
def firstWaiting : Hub :=
  firstRead.step (normalizeMac (List.map Char.toUpper)) (normMac (List.map Char.toUpper)) (.frame 0 firstState 1002)

/-- The receipt is sent, and the state is read. -/
def firstReceipted : Hub :=
  runFrom (step (normalizeMac (List.map Char.toUpper)) (normMac (List.map Char.toUpper))) firstWaiting
    [.receipts 0, .read 1003]

/-- The integration leaves and joins again, and it reads the snapshot that is replayed and the state. -/
def firstRejoined : Hub :=
  runFrom (step (normalizeMac (List.map Char.toUpper)) (normMac (List.map Char.toUpper))) firstRead
    [.leave, .join, .read 1002, .frame 0 firstState 1003, .receipts 0, .read 1004]

theorem firstState_proper :
    firstState.Proper (macColonString '' {Octets.fit 6 [1]}) (macColonString '' {Octets.fit 6 [2]}) firstClient := by
  intro ev hev
  rw [List.mem_singleton.mp hev]
  exact ⟨⟨_, rfl, rfl⟩, ⟨_, rfl, rfl⟩⟩

/-- The run of the example disturbs no client. -/
theorem firstWaiting_reachable : Reachable Initial
    (Undisturbed (macColonString '' {Octets.fit 6 [1]}) (macColonString '' {Octets.fit 6 [2]}))
    (step (normalizeMac (List.map Char.toUpper)) (normMac (List.map Char.toUpper))) firstWaiting := by
  refine .next firstRead_reachable ⟨⟨rfl, rfl, firstState_proper⟩, ?_⟩
  rintro c now ⟨⟩

theorem firstRejoined_reachable : Reachable Initial
    (Undisturbed (macColonString '' {Octets.fit 6 [1]}) (macColonString '' {Octets.fit 6 [2]}))
    (step (normalizeMac (List.map Char.toUpper)) (normMac (List.map Char.toUpper))) firstRejoined := by
  refine firstRead_reachable.runFrom
    ⟨⟨trivial, ?_⟩, ⟨trivial, ?_⟩, ⟨trivial, ?_⟩, ⟨⟨rfl, rfl, firstState_proper⟩, ?_⟩, ⟨trivial, ?_⟩,
      ⟨trivial, ?_⟩, trivial⟩
  all_goals rintro c now ⟨⟩

/-- A state waits for its receipts while the integration has room for it, and reaches it after them.
-/
theorem passed_in_order_firstWaiting :
    (heard firstWaiting.handled).filter (Told.isOf 0) =
        firstWaiting.passed.filter (Told.isOf 0) ++ firstWaiting.owed 0 ∧
      ((firstWaiting.seen ++ firstWaiting.feed.getD []).filter (Told.isOf 0)).Sublist
          (firstWaiting.passed.filter (Told.isOf 0)) ∧
        ∃ more q', more.length = 1 ∧ firstReceipted.passed = firstWaiting.passed ++ more ∧
          firstReceipted.feed = some q' ∧ firstReceipted.seen ++ q' = firstWaiting.seen ++ [] ++ more := by
  obtain ⟨hhandled, hread, hgains⟩ := passed_in_order (addressing_printed (normalizeMac_macColonString _) firstMacs_ne)
    (addressing_printed (normMac_macColonString fun _ _ => rfl) firstMacs_ne) firstWaiting_reachable
  have hroom (q : List Told) (hq : q ∈ firstWaiting.feed) : q.length < 256 := by
    cases hq
    decide
  have hroom' (q : List Told) (hq : q ∈ some firstReceipted.passed.tail) : q.length < 256 := by
    cases hq
    decide
  obtain ⟨more, q', hpassed, hfeed, hseen⟩ := hgains [.receipts 0, .read 1003] ⟨hroom, hroom', trivial⟩ [] rfl
  refine ⟨hhandled 0, hread 0, more, q', ?_, hpassed, hfeed, hseen⟩
  have hlength := congrArg List.length hpassed
  rw [List.length_append] at hlength
  exact Nat.add_left_cancel
    (hlength.symm.trans rfl : firstWaiting.passed.length + more.length = firstWaiting.passed.length + 1)

end Hub

end EspTree.Integration
