import EspTree.AddOn.Moves

/-!
# One job at a time

Two promises of the add-on about its table of jobs: at most one job is being flashed, and no device
has two active jobs.  The endpoints look at the table before they start a job.  The worker does not
when it takes a job from the queue, `ota_start` does not look at the other jobs of the device, and
the coroutines that wait for the bridge write the status of their job whatever it has become in the
meantime.  So both promises are kept in the runs in which these blind writes find what they expect.
-/

namespace EspTree.AddOn

open Wire

/-- A status of the kind is only written blindly for a job that meets the condition. -/
def Unraced (kind : Status → Bool) (cond : Database → Nat → Prop) (s : Server) (e : Event) : Prop :=
  ∀ w ∈ s.blindWrites e, kind w.2 = true → cond s.db w.1

instance (kind : Status → Bool) (cond : Database → Nat → Prop) [∀ db id, Decidable (cond db id)]
    (s : Server) (e : Event) : Decidable (Unraced kind cond s e) :=
  inferInstanceAs (Decidable (∀ w ∈ s.blindWrites e, kind w.2 = true → cond s.db w.1))

/-- One event makes one job active, but for a queued compilation that begins. -/
theorem Change.target_unique {s : Server} {e : Event} {id id' : Nat} {status status' : Status}
    (hc : Change s e id status) (hc' : Change s e id' status') (hst : status.isActive = true)
    (hst' : status'.isActive = true) :
    id = id' ∨ status = .compiling ∧ ∃ job ∈ s.db.jobs, job.id = id ∧ job.status = .compileQueued := by
  cases hc with
  | blind hw =>
    cases hc' with
    | blind hw' => exact .inl (Server.blindWrites_id hw hw')
    | began => simp [Server.not_isActive_of_compiler hw] at hst
    | confirmed | confirmedFlash | startedQueued => cases hw
    | dropped | abortedNow | compileDropped | cancelledNow | superseded => cases hst'
  | confirmed =>
    cases hc' with
    | blind hw' => cases hw'
    | confirmed => exact .inl rfl
    | superseded => cases hst'
  | confirmedFlash hjob hpending hstatus =>
    cases hc' with
    | blind hw' => cases hw'
    | confirmedFlash hjob' => exact .inl (by rw [Option.some.inj (hjob.symm.trans hjob')])
    | startedQueued hjob' => exact .inl (by rw [Option.some.inj (hjob.symm.trans hjob')])
    | superseded => cases hst'
  | startedQueued hjob hq hactive =>
    cases hc' with
    | blind hw' => cases hw'
    | confirmedFlash hjob' => exact .inl (by rw [Option.some.inj (hjob.symm.trans hjob')])
    | startedQueued hjob' => exact .inl (by rw [Option.some.inj (hjob.symm.trans hjob')])
    | superseded => cases hst'
  | began hjob hq => exact .inr ⟨rfl, _, hjob, rfl, hq⟩
  | dropped | abortedNow | compileDropped | cancelledNow | superseded => cases hst

/-- The compile worker makes no other job active than one that waits to be compiled. -/
theorem Change.of_compiler {s : Server} {r : Reply} {id : Nat} {status : Status}
    (hc : Change s (.compiler r) id status) (hst : status.isActive = true) :
    ∃ job ∈ s.db.jobs, job.id = id ∧ job.status = .compileQueued := by
  cases hc with
  | blind hw => simp [Server.not_isActive_of_compiler hw] at hst
  | compileDropped | superseded => cases hst
  | began hjob hq => exact ⟨_, hjob, rfl, hq⟩

/-- Rows of one id are one row. -/
theorem Keyed.length_filter_le_one {db : Database} (hk : Keyed db) {p : Job → Bool}
    (h : ∀ a ∈ db.jobs, ∀ b ∈ db.jobs, p a = true → p b = true → a.id = b.id) :
    (db.jobs.filter p).length ≤ 1 := by
  have hnodup : ((db.jobs.filter p).map (·.id)).Nodup :=
    hk.unique.sublist (List.filter_sublist.map _)
  match hjobs : db.jobs.filter p with
  | [] => simp
  | [_] => simp
  | a :: b :: jobs =>
    have ha : a ∈ db.jobs.filter p := by simp [hjobs]
    have hb : b ∈ db.jobs.filter p := by simp [hjobs]
    rw [List.mem_filter] at ha hb
    have hid := h a ha.1 b hb.1 ha.2 hb.2
    simp [hjobs, hid] at hnodup

/-! ## Flashing -/

/-- No other job is being flashed. -/
def Alone (db : Database) (id : Nat) : Prop :=
  ∀ job ∈ db.jobs, job.status.isFlash = true → job.id = id

instance (db : Database) (id : Nat) : Decidable (Alone db id) :=
  inferInstanceAs (Decidable (∀ job ∈ db.jobs, job.status.isFlash = true → job.id = id))

/-- No other job is being flashed when the worker takes a job from the queue, when the bridge has
accepted a job or taken its chunks, and when it reports on one. -/
def FlashUnraced : Server → Event → Prop := Unraced Status.isFlash Alone

instance (s : Server) (e : Event) : Decidable (FlashUnraced s e) :=
  inferInstanceAs (Decidable (Unraced Status.isFlash Alone s e))

/-- All jobs that are being flashed have the same id. -/
def SameFlash (db : Database) : Prop :=
  ∀ a ∈ db.jobs, ∀ b ∈ db.jobs, a.status.isFlash = true → b.status.isFlash = true → a.id = b.id

namespace SameFlash

theorem fresh {s : Server} (h : Fresh s) : SameFlash s.db := by
  rw [h]
  simp [SameFlash]

variable {s : Server} {e : Event} {id : Nat} {status : Status}

theorem alone_of_activeJob (h : SameFlash s.db) (hid : ∀ job, s.db.activeJob = some job → job.id = id) :
    Alone s.db id := by
  intro job hjob hflash
  cases hactive : s.db.activeJob with
  | none =>
    have hnone := Database.activeJob_eq_none.1 hactive job hjob
    simp [hflash] at hnone
  | some active =>
    obtain ⟨hmem, hf⟩ := Database.mem_of_activeJob hactive
    rw [← hid active hactive]
    exact h job hjob active hmem hflash hf

/-- A job that starts without other work is alone. -/
theorem alone_of_idle (h : SameFlash s.db) {current : Option Nat}
    (hidle : s.db.flashWorkPending current = false) (hc : ∀ id', current = some id' → id' = id) :
    Alone s.db id := by
  refine h.alone_of_activeJob fun job hjob => ?_
  simp only [Database.flashWorkPending, hjob, Option.any_some, Bool.or_eq_false_iff, bne_eq_false_iff_eq]
    at hidle
  exact hc _ hidle.1

/-- A job that is given a flash status is alone. -/
theorem alone (h : SameFlash s.db) (hok : FlashUnraced s e) (hc : Change s e id status)
    (hst : status.isFlash = true) : Alone s.db id := by
  cases hc with
  | blind hw => exact hok _ hw hst
  | confirmed hjob hid hpending hstatus =>
    rcases hstatus with rfl | ⟨rfl, hidle⟩
    · cases hst
    · exact h.alone_of_idle hidle fun _ => Option.some.inj ∘ Eq.symm
  | confirmedFlash hjob hpending hstatus =>
    rcases hstatus with rfl | ⟨rfl, hidle⟩
    · cases hst
    · exact h.alone_of_idle hidle fun _ => Option.some.inj ∘ Eq.symm
  | startedQueued hjob hq hactive =>
    refine h.alone_of_activeJob fun job hjob => ?_
    simpa [hjob] using hactive
  | dropped | abortedNow | compileDropped | began | cancelledNow | superseded => cases hst

/-- A job that is born with a flash status finds no other, and no other gets one. -/
theorem birth {mac : Mac} (hb : Birth s e mac status)
    (hst : status.isFlash = true) : (∀ job ∈ s.db.jobs, job.status.isFlash = false) ∧
      ∀ id' status', Change s e id' status' → status'.isFlash = false := by
  cases hb with
  | startFlash hnone hstatus =>
    rcases hstatus with rfl | ⟨rfl, hidle⟩
    · cases hst
    · constructor
      · rw [← Database.activeJob_eq_none]
        by_contra hactive
        obtain ⟨job, hjob⟩ := Option.ne_none_iff_exists'.1 hactive
        simp [Database.flashWorkPending, hjob] at hidle
      · intro id' status' hc
        cases hc with
        | blind hw => cases hw
        | confirmedFlash hjob => simp [hnone] at hjob
        | startedQueued hjob => simp [hnone] at hjob
        | superseded => rfl
  | uploaded | reflashed | compile | autoFlash | submitted => cases hst

/-- An event keeps it. -/
theorem step (h : SameFlash s.db) (hk : Keyed s.db) (c : Settings) (hok : FlashUnraced s e) :
    SameFlash (step c s e).db := by
  have hev := step_evolves c s hk.bounded e
  have hborn {job job' : Job} (hb : Birth s e job'.mac job'.status)
      (hf' : job'.status.isFlash = true) (hf : job.status.isFlash = true) :
      ¬ ∃ old ∈ s.db.jobs, old.id = job.id ∧ old.mac = job.mac ∧
        (job.status = old.status ∨ Change s e job.id job.status) := by
    rintro ⟨old, hold, -, -, hsame | hc⟩
    · have hnone := (birth hb hf').1 old hold
      rw [← hsame, hf] at hnone
      cases hnone
    · have hnone := (birth hb hf').2 _ _ hc
      rw [hf] at hnone
      cases hnone
  intro a' ha' b' hb' hfa hfb
  rcases hev.origin a' ha' with ⟨a, ha, hida, hmaca, hsa⟩ | ⟨hida, hba⟩
  · rcases hev.origin b' hb' with ⟨b, hb, hidb, -, hsb⟩ | ⟨-, hbb⟩
    · rcases hsa with hsa | hca
      · rcases hsb with hsb | hcb
        · rw [← hida, ← hidb]
          exact h a ha b hb (hsa ▸ hfa) (hsb ▸ hfb)
        · rw [← hida]
          exact h.alone hok hcb hfb a ha (hsa ▸ hfa)
      · rcases hsb with hsb | hcb
        · rw [← hidb]
          exact (h.alone hok hca hfa b hb (hsb ▸ hfb)).symm
        · rcases hca.target_unique hcb (Status.isActive_of_isFlash hfa)
            (Status.isActive_of_isFlash hfb) with hid | ⟨hbegan, -⟩
          · exact hid
          · rw [hbegan] at hfa
            cases hfa
    · exact absurd ⟨a, ha, hida, hmaca, hsa⟩ (hborn hbb hfb hfa)
  · rcases hev.origin b' hb' with hold | ⟨hidb, -⟩
    · exact absurd hold (hborn hba hfa hfb)
    · rw [hida, hidb]

end SameFlash

/-- At most one job is being flashed, in every state of a run whose blind writes of a flash status
find no other job that is being flashed.  The worker makes such a write when it takes a job from the
queue: it does not look again at the table after it has waited for the topology, and an endpoint may
have started a job in between. -/
theorem length_flashing_le_one {c : Settings} {s : Server}
    (hs : Transition.Reachable Fresh FlashUnraced (step c) s) :
    (s.db.jobs.filter (·.status.isFlash)).length ≤ 1 := by
  have hinv : Keyed s.db ∧ SameFlash s.db := by
    refine hs.invariant (I := fun s => Keyed s.db ∧ SameFlash s.db) ?_ ?_
    · exact fun s h => ⟨.fresh h, .fresh h⟩
    · exact fun s e h hok => ⟨h.1.step c e, h.2.step h.1 c hok⟩
  exact hinv.1.length_filter_le_one hinv.2

/-! Two devices, and the two ways in which a run with them goes on. -/

/-- A device. -/
def porch : Mac := Octets.zero 6

/-- Another one. -/
def garage : Mac := ⟨[1, 0, 0, 0, 0, 0], rfl⟩

/-- A firmware file is uploaded for the device, to be confirmed. -/
def uploads (mac : Mac) : List Event :=
  [.otaUpload mac, .uploadReply 0 true true "" 0, .uploadReply 0 true true "1.0" 0]

/-- The worker waits; both devices get a file, and both jobs are confirmed before it wakes up. -/
def bothConfirmed : List Event :=
  [.worker {}, .worker {}] ++ uploads porch ++ uploads garage ++ [.otaStart 1, .otaStart 2]

/-- The worker takes the second job from the queue while the first one is about to start. -/
def bothStarted : List Event :=
  bothConfirmed ++ [.worker {}, .worker { topology := .found { online := true } }]

/-- Without the condition two jobs are flashed at once: the worker takes the second one from the
queue while the first one, which `ota_start` has started, is waiting for it. -/
theorem not_length_flashing_le_one :
    ¬ ∀ s, Transition.Reachable Fresh (fun _ _ => True) (step {}) s →
      (s.db.jobs.filter (·.status.isFlash)).length ≤ 1 := by
  intro h
  have hrun : Transition.Admits (fun _ _ => True) (step {}) {} bothStarted := by decide +kernel
  have hle := h _ (reachable_runFrom hrun)
  exact absurd hle (by decide +kernel)

/-- The worker hands the first job over to the bridge, which accepts it and reports on it; the second
one waits. -/
def oneStarted : List Event :=
  bothConfirmed.dropLast ++ [.worker {}, .otaStart 2, .worker {}, .worker {}, .worker {},
    .onStatus .announcing "" 5, .worker {}, .chunkRequest 6, .chunkReply 0 false 7]

/-- A run that keeps to the condition, with a job that is transferred and one that waits behind it.
-/
theorem length_flashing_le_one_oneStarted :
    (Transition.runFrom (step {}) {} oneStarted).db.jobs.map (·.status) = [.transferring, .queued] ∧
      ((Transition.runFrom (step {}) {} oneStarted).db.jobs.filter (·.status.isFlash)).length ≤ 1 := by
  have hrun : Transition.Admits FlashUnraced (step {}) {} oneStarted := by decide +kernel
  exact ⟨by decide +kernel, length_flashing_le_one (reachable_runFrom hrun)⟩

/-! ## Active jobs of a device -/

/-- No other job of the device of the job is active. -/
def AloneOnDevice (db : Database) (id : Nat) : Prop :=
  ∀ job ∈ db.jobs, job.id = id → ∀ other ∈ db.jobs, other.mac = job.mac →
    other.status.isActive = true → other.id = id

instance (db : Database) (id : Nat) : Decidable (AloneOnDevice db id) :=
  inferInstanceAs (Decidable (∀ job ∈ db.jobs, job.id = id → ∀ other ∈ db.jobs,
    other.mac = job.mac → other.status.isActive = true → other.id = id))

/-- The device of the job has no active job. -/
def ConfirmFree (db : Database) (id : Nat) : Prop :=
  ∀ job ∈ db.jobs, job.id = id → job.status = .pendingConfirm → AloneOnDevice db id

instance (db : Database) (id : Nat) : Decidable (ConfirmFree db id) :=
  inferInstanceAs (Decidable (∀ job ∈ db.jobs, job.id = id → job.status = .pendingConfirm →
    AloneOnDevice db id))

/-- The compile job that is about to be done, if a flash job follows it. -/
def Compiler.autoFlashing : Compiler → Option Job
  | .reporting job _ => if job.autoFlash then some job else none
  | _ => none

/-- It is the only active job of its device. -/
def AutoFlashFree (s : Server) : Prop :=
  ∀ job ∈ s.compiler.autoFlashing, ∀ other ∈ s.db.jobs, other.mac = job.mac →
    other.status.isActive = true → other.id = job.id

instance (s : Server) : Decidable (AutoFlashFree s) :=
  inferInstanceAs (Decidable (∀ job ∈ s.compiler.autoFlashing, ∀ other ∈ s.db.jobs,
    other.mac = job.mac → other.status.isActive = true → other.id = job.id))

/-- The job that is to be confirmed. -/
def Event.confirms : Event → Option Nat
  | .otaStart id => some id
  | _ => none

/-- The compile worker goes on. -/
def Event.isCompiler : Event → Bool
  | .compiler _ => true
  | _ => false

/-- No other job of the device is active when a job of it is confirmed, when a flash job is made for a
compilation, and when a status is written blindly. -/
def DeviceUnraced (s : Server) (e : Event) : Prop :=
  Unraced Status.isActive AloneOnDevice s e ∧ (∀ id ∈ e.confirms, ConfirmFree s.db id) ∧
    (e.isCompiler = true → AutoFlashFree s)

instance (s : Server) (e : Event) : Decidable (DeviceUnraced s e) :=
  inferInstanceAs (Decidable (Unraced Status.isActive AloneOnDevice s e ∧
    (∀ id ∈ e.confirms, ConfirmFree s.db id) ∧ (e.isCompiler = true → AutoFlashFree s)))

/-- All active jobs of a device have the same id. -/
def SameActive (db : Database) : Prop :=
  ∀ a ∈ db.jobs, ∀ b ∈ db.jobs, a.mac = b.mac → a.status.isActive = true →
    b.status.isActive = true → a.id = b.id

namespace SameActive

theorem fresh {s : Server} (h : Fresh s) : SameActive s.db := by
  rw [h]
  simp [SameActive]

variable {s : Server} {e : Event} {id : Nat} {status : Status}

theorem alone_of_isActive (h : SameActive s.db) {job : Job} (hjob : job ∈ s.db.jobs)
    (hactive : job.status.isActive = true) (hk : Keyed s.db) : AloneOnDevice s.db job.id := by
  intro job' hjob' hid other hother hmac hactive'
  rw [hk.eq_of_id hjob' hjob hid] at hmac
  exact h other hother job hjob hmac hactive' hactive

/-- A candidate that awaits confirmation has no active rival. -/
theorem alone_of_candidate {mac : Mac} {job : Job} (hk : Keyed s.db)
    (hjob : s.db.flashCandidate mac = some job) (hpending : job.status = .pendingConfirm) :
    AloneOnDevice s.db job.id := by
  obtain ⟨hmem, rfl⟩ := Database.mem_of_flashCandidate hjob
  have hnone : s.db.activeJobForDevice job.mac = none := by
    rcases Option.or_eq_some_iff.1 hjob with hactive | ⟨hnone, -⟩
    · have hst := (Database.mem_of_activeJobForDevice hactive).2.2
      rw [hpending] at hst
      cases hst
    · exact hnone
  intro job' hjob' hid other hother hmac hactive
  rw [hk.eq_of_id hjob' hmem hid] at hmac
  have hidle := Database.activeJobForDevice_eq_none.1 hnone other hother hmac
  rw [hactive] at hidle
  cases hidle

/-- A job that is given an active status is alone. -/
theorem alone (h : SameActive s.db) (hk : Keyed s.db) (hok : DeviceUnraced s e)
    (hc : Change s e id status) (hst : status.isActive = true) : AloneOnDevice s.db id := by
  cases hc with
  | blind hw => exact hok.1 _ hw hst
  | confirmed hjob hid hpending => exact hok.2.1 _ rfl _ hjob hid hpending
  | confirmedFlash hjob hpending => exact alone_of_candidate hk hjob hpending
  | startedQueued hjob hq =>
    exact h.alone_of_isActive (Database.mem_of_flashCandidate hjob).1 (by rw [hq]; rfl) hk
  | began hjob hq => exact h.alone_of_isActive hjob (by rw [hq]; rfl) hk
  | dropped | abortedNow | compileDropped | cancelledNow | superseded => cases hst

/-- The only active job of the device is done with this event, and the event makes no job active that was
not. -/
structure Ends (c : Settings) (s : Server) (e : Event) (mac : Mac) (id : Nat) : Prop where
  only : ∀ other ∈ s.db.jobs, other.mac = mac → other.status.isActive = true → other.id = id
  done : ∀ job ∈ (AddOn.step c s e).db.jobs, job.id = id → job.id = s.db.nextId ∨ job.status.isActive = false
  change : ∀ id' status', Change s e id' status' → status'.isActive = true →
    ∃ job ∈ s.db.jobs, job.id = id' ∧ job.status.isActive = true

/-- What an active job, born by an event, finds on its device: no active job, or one that is done with this
event. -/
theorem birth (h : SameActive s.db) (c : Settings) {mac : Mac} (hok : DeviceUnraced s e)
    (hb : Birth s e mac status) (hst : status.isActive = true) :
    (∀ job ∈ s.db.jobs, job.mac = mac → job.status.isActive = false) ∧
        (∀ id' status', Change s e id' status' → status'.isActive = false) ∨
      ∃ id, Ends c s e mac id := by
  cases hb with
  | compile hnone =>
    refine .inl ⟨Database.activeJobForDevice_eq_none.1 hnone, fun id' status' hc => ?_⟩
    cases hc with
    | blind hw => cases hw
    | superseded => rfl
  | startFlash hnone =>
    refine .inl ⟨Database.activeJobForDevice_eq_none.1 (Option.or_eq_none_iff.1 hnone).1, ?_⟩
    intro id' status' hc
    cases hc with
    | blind hw => cases hw
    | confirmedFlash hjob => simp [hnone] at hjob
    | startedQueued hjob => simp [hnone] at hjob
    | superseded => rfl
  | @autoFlash r job path hw hauto =>
    refine .inr ⟨job.id, hok.2.2 rfl _ (by simp [Compiler.autoFlashing, hw, hauto]), fun row hrow hid => ?_,
      fun id' status' hc hactive => ?_⟩
    · exact (s.compileStep_done r hw row hrow hid).imp_right fun hsuccess => by rw [hsuccess]; rfl
    · obtain ⟨queued, hqueued, hid, hq⟩ := hc.of_compiler hactive
      exact ⟨queued, hqueued, hid, by rw [hq]; rfl⟩
  | submitted he =>
    obtain ⟨⟨esphomeName, now⟩, hsubmission⟩ := Option.isSome_iff_exists.1 he
    have hnever : ∀ id' status', Change s e id' status' → status'.isActive = false := by
      intro id' status' hc
      cases e with
      | flashWizardSubmit | submitReply =>
        cases hc with
        | blind hw => cases hw
        | superseded => rfl
      | _ => cases hsubmission
    cases hactive : s.db.activeJobForDevice Server.placeholderMac with
    | none => exact .inl ⟨Database.activeJobForDevice_eq_none.1 hactive, hnever⟩
    | some active =>
      obtain ⟨hmem, hmac, hst'⟩ := Database.mem_of_activeJobForDevice hactive
      refine .inr ⟨active.id, fun other hother hothermac hotherst => ?_, fun row hrow hid => ?_,
        fun id' status' hc hst' => ?_⟩
      · exact h other hother active hmem (hothermac.trans hmac.symm) hotherst hst'
      · exact (s.submission_done c hsubmission hactive row hrow hid).imp_right fun haborted => by rw [haborted]; rfl
      · rw [hnever id' status' hc] at hst'
        cases hst'
  | uploaded | reflashed => cases hst

/-- An event keeps it. -/
theorem step (h : SameActive s.db) (hk : Keyed s.db) (c : Settings) (hok : DeviceUnraced s e) :
    SameActive (step c s e).db := by
  have hev := step_evolves c s hk.bounded e
  have hborn {job job' : Job} (hmem : job ∈ (AddOn.step c s e).db.jobs)
      (hb : Birth s e job'.mac job'.status) (hmac : job.mac = job'.mac)
      (ha' : job'.status.isActive = true) (ha : job.status.isActive = true) :
      ¬ ∃ old ∈ s.db.jobs, old.id = job.id ∧ old.mac = job.mac ∧
        (job.status = old.status ∨ Change s e job.id job.status) := by
    rintro ⟨old, hold, hid, holdmac, hst⟩
    rcases h.birth c hok hb ha' with ⟨hnone, hnever⟩ | ⟨done, hends⟩
    · rcases hst with hsame | hc
      · have hfree := hnone old hold (holdmac.trans hmac)
        rw [← hsame, ha] at hfree
        cases hfree
      · have hfree := hnever _ _ hc
        rw [ha] at hfree
        cases hfree
    · have hactive : old.status.isActive = true := by
        rcases hst with hsame | hc
        · rw [← hsame, ha]
        · obtain ⟨row, hrow, hid', hrowst⟩ := hends.change _ _ hc ha
          rwa [hk.eq_of_id hold hrow (hid.trans hid'.symm)]
      have hdone := hends.only old hold (holdmac.trans hmac) hactive
      rcases hends.done job hmem (hid.symm.trans hdone) with hnew | hended
      · exact absurd (hk.bounded old hold) (by omega)
      · rw [hended] at ha
        cases ha
  intro a' ha' b' hb' hmac hfa hfb
  rcases hev.origin a' ha' with ⟨a, ha, hida, hmaca, hsa⟩ | ⟨hida, hba⟩
  · rcases hev.origin b' hb' with ⟨b, hb, hidb, hmacb, hsb⟩ | ⟨-, hbb⟩
    · have hmac' : a.mac = b.mac := by rw [hmaca, hmacb, hmac]
      rcases hsa with hsa | hca
      · rcases hsb with hsb | hcb
        · rw [← hida, ← hidb]
          exact h a ha b hb hmac' (hsa ▸ hfa) (hsb ▸ hfb)
        · rw [← hida]
          exact h.alone hk hok hcb hfb b hb hidb a ha hmac' (hsa ▸ hfa)
      · rcases hsb with hsb | hcb
        · rw [← hidb]
          exact (h.alone hk hok hca hfa a ha hida b hb hmac'.symm (hsb ▸ hfb)).symm
        · rcases hca.target_unique hcb hfa hfb with hid | ⟨-, old, hold, hid, hq⟩
          · exact hid
          · rw [hk.eq_of_id hold ha (hid.trans hida.symm)] at hq
            rw [← hida]
            exact h.alone hk hok hcb hfb b hb hidb a ha hmac' (by rw [hq]; rfl)
    · exact absurd ⟨a, ha, hida, hmaca, hsa⟩ (hborn ha' hbb hmac hfb hfa)
  · rcases hev.origin b' hb' with hold | ⟨hidb, -⟩
    · exact absurd hold (hborn hb' hba hmac.symm hfa hfb)
    · rw [hida, hidb]

end SameActive

/-- A device has at most one active job, in every state of a run in which it has no other active one
when a job of it is confirmed, when a flash job follows a compilation, and when an active status is
written blindly.  The endpoints that create a job look at the table first; `ota_start` and the
compile worker do not. -/
theorem length_active_le_one {c : Settings} {s : Server}
    (hs : Transition.Reachable Fresh DeviceUnraced (step c) s) (mac : Mac) :
    (s.db.jobs.filter fun job => job.mac == mac && job.status.isActive).length ≤ 1 := by
  have hinv : Keyed s.db ∧ SameActive s.db := by
    refine hs.invariant (I := fun s => Keyed s.db ∧ SameActive s.db) ?_ ?_
    · exact fun s h => ⟨.fresh h, .fresh h⟩
    · exact fun s e h hok => ⟨h.1.step c e, h.2.step h.1 c hok⟩
  refine hinv.1.length_filter_le_one fun a ha b hb hpa hpb => ?_
  simp only [Bool.and_eq_true, beq_iff_eq] at hpa hpb
  exact hinv.2 a ha b hb (hpa.1.trans hpb.1.symm) hpa.2 hpb.2

/-- A file that awaits its confirmation does not keep the device from being compiled for, and the
compilation does not keep the file from being confirmed. -/
def confirmedDuringCompile : List Event :=
  uploads porch ++ [.compileDeviceConfig porch "porch" false 1, .otaStart 1]

/-- Without the condition a device is compiled for and flashed at the same time. -/
theorem not_length_active_le_one :
    ¬ ∀ s, Transition.Reachable Fresh (fun _ _ => True) (step {}) s → ∀ mac,
      (s.db.jobs.filter fun job => job.mac == mac && job.status.isActive).length ≤ 1 := by
  intro h
  have hrun : Transition.Admits (fun _ _ => True) (step {}) {} confirmedDuringCompile := by
    decide +kernel
  exact absurd (h _ (reachable_runFrom hrun) porch) (by decide +kernel)

/-- Both devices are busy: a flash job follows the compilation for one, and waits behind the file of
the other.  The flash wizard is used twice, and the second compilation takes the place of the first. -/
def bothBusy : List Event :=
  [.worker {}, .compiler {}, .compileDeviceConfig porch "porch" true 0, .compiler {}, .compiler {},
    .compiler {}, .compiler {}] ++ uploads garage ++ [.otaStart 2, .compiler {}, .compiler {},
    .flashWizardSubmit "bridge" true true 3, .compiler {}, .compiler {}, .compiler {}, .compiler {},
    .flashWizardSubmit "bridge" true true 4, .submitReply 0 true 5]

/-- A run that keeps to the condition with two devices and the flash wizard: the job of one device
waits in the queue while the other device is being flashed. -/
theorem length_active_le_one_bothBusy :
    (Transition.runFrom (step {}) {} bothBusy).db.jobs.map (·.status) =
        [.compileSuccess, .starting, .queued, .aborted, .compileQueued] ∧
      ((Transition.runFrom (step {}) {} bothBusy).db.jobs.filter fun job =>
        job.mac == porch && job.status.isActive).length ≤ 1 := by
  have hrun : Transition.Admits DeviceUnraced (step {}) {} bothBusy := by decide +kernel
  exact ⟨by decide +kernel, length_active_le_one (reachable_runFrom hrun) porch⟩

end EspTree.AddOn
