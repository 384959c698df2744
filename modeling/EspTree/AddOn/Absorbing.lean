import EspTree.AddOn.Exclusive

/-!
# Terminal statuses

A job that has ended should stay as it is.  The guarded writes of the endpoints and of the workers
respect that, since they look at the row first.  The blind ones do not: a start that is accepted,
chunks that are sent, a report of the bridge or the outcome of a compilation are written into the row
even if the user has aborted the job in the meantime.

`terminal_absorbing` is about every continuation of a reachable state: as long as no blind write is
made to a row that has ended in the meantime, the row keeps its status.  The condition is on the
state before each step (`StatusUnraced`), and it names the writes, not their results.

The rows that are deleted are no exception.  An id is never used twice, so a row with the id of a job
that has ended is the row of this job.
-/

namespace EspTree.AddOn

open Wire

/-- The write leaves a job that has ended as it is. -/
def Settled (db : Database) (w : Nat × Status) : Prop :=
  ∀ job ∈ db.jobs, job.id = w.1 → job.status.isTerminal = true → job.status = w.2

instance (db : Database) (w : Nat × Status) : Decidable (Settled db w) :=
  inferInstanceAs (Decidable (∀ job ∈ db.jobs, job.id = w.1 → job.status.isTerminal = true →
    job.status = w.2))

/-- The worker goes on after a transfer has timed out among the requests that came before the
acceptance: it fails the job, and then writes that the transfer goes on. -/
def Server.isTimedOutEarly (s : Server) : Event → Bool
  | .worker _ => match s.worker with
    | .flushAborting _ _ _ => true
    | _ => false
  | _ => false

/-- The blind writes of the event find a job that has not ended, or one that has ended that way. -/
def StatusUnraced (s : Server) (e : Event) : Prop :=
  (∀ w ∈ s.blindWrites e, Settled s.db w) ∧ s.isTimedOutEarly e = false

instance (s : Server) (e : Event) : Decidable (StatusUnraced s e) :=
  inferInstanceAs (Decidable ((∀ w ∈ s.blindWrites e, Settled s.db w) ∧ s.isTimedOutEarly e = false))

/-- The other writes look at the row. -/
theorem Change.blind_or_open {s : Server} {e : Event} {id : Nat} {status : Status}
    (hk : Keyed s.db) (hc : Change s e id status) :
    (id, status) ∈ s.blindWrites e ∨
      ∀ job ∈ s.db.jobs, job.id = id → job.status.isTerminal = false := by
  have hopen {job : Job} (hjob : job ∈ s.db.jobs) (hst : job.status.isTerminal = false) :
      ∀ job' ∈ s.db.jobs, job'.id = job.id → job'.status.isTerminal = false := by
    intro job' hjob' hid
    rwa [hk.eq_of_id hjob' hjob hid]
  have hactive {job : Job} (h : s.db.activeJob = some job) :
      ∀ job' ∈ s.db.jobs, job'.id = job.id → job'.status.isTerminal = false := by
    obtain ⟨hjob, hflash⟩ := Database.mem_of_activeJob h
    exact hopen hjob (Status.not_isTerminal_of_isActive (Status.isActive_of_isFlash hflash))
  cases hc with
  | blind h => exact .inl h
  | dropped _ hjob => exact .inr (hactive hjob)
  | abortedNow hjob => exact .inr (hactive hjob)
  | confirmed hjob hid hpending =>
    rw [← hid]
    exact .inr (hopen hjob (by rw [hpending]; rfl))
  | confirmedFlash hjob hpending =>
    exact .inr (hopen (Database.mem_of_flashCandidate hjob).1 (by rw [hpending]; rfl))
  | startedQueued hjob hq =>
    exact .inr (hopen (Database.mem_of_flashCandidate hjob).1 (by rw [hq]; rfl))
  | compileDropped _ hjob =>
    obtain ⟨hmem, hst⟩ := Database.mem_of_activeCompileJob hjob
    exact .inr (hopen hmem (by rw [hst]; rfl))
  | began hjob hq => exact .inr (hopen hjob (by rw [hq]; rfl))
  | cancelledNow hjob hst =>
    exact .inr (hopen (Database.mem_of_activeJobForDevice hjob).1 (by rw [hst]; rfl))
  | superseded _ hjob =>
    obtain ⟨hmem, -, hst⟩ := Database.mem_of_activeJobForDevice hjob
    exact .inr (hopen hmem (Status.not_isTerminal_of_isActive hst))

/-- The job with the id, as long as it is there, has the status. -/
structure Kept (db : Database) (id : Nat) (status : Status) : Prop where
  keyed : Keyed db
  old : id < db.nextId
  same : ∀ job ∈ db.jobs, job.id = id → job.status = status

theorem Kept.step {s : Server} {e : Event} {id : Nat} {status : Status} (h : Kept s.db id status)
    (ht : status.isTerminal = true) (c : Settings) (hok : StatusUnraced s e) :
    Kept (step c s e).db id status := by
  have hev := step_evolves c s h.keyed.bounded e
  refine ⟨h.keyed.step c e, h.old.trans_le hev.nextId, ?_⟩
  rintro job' hjob' rfl
  rcases hev.origin job' hjob' with ⟨job, hjob, hid, -, hkept | hc⟩ | ⟨hnew, -⟩
  · rw [hkept]
    exact h.same job hjob hid
  · have hst := h.same job hjob hid
    rcases hc.blind_or_open h.keyed with hblind | hopen
    · rw [← hst, hok.1 _ hblind job hjob hid (by rw [hst, ht])]
    · have hfree := hopen job hjob hid
      rw [hst, ht] at hfree
      cases hfree
  · exact absurd h.old (by omega)

/-- A job that has ended keeps its status for ever, whatever happens after, in every run whose blind
writes leave ended jobs as they are.  Only the blind writes need the condition: all others are made
by code that has just looked at the row, and has found it open. -/
theorem terminal_absorbing {c : Settings} {s : Server}
    (hs : Transition.Reachable Fresh StatusUnraced (step c) s) {es : List Event}
    (hes : Transition.Admits StatusUnraced (step c) s es) {job job' : Job} (hjob : job ∈ s.db.jobs)
    (ht : job.status.isTerminal = true)
    (hjob' : job' ∈ (Transition.runFrom (step c) s es).db.jobs) (hid : job'.id = job.id) :
    job'.status = job.status := by
  have hkeyed : Keyed s.db :=
    hs.invariant (I := fun s => Keyed s.db) (fun _ => .fresh) fun s e h _ => h.step c e
  have hstart : Kept s.db job.id job.status := by
    refine ⟨hkeyed, hkeyed.bounded job hjob, fun row hrow hrowid => ?_⟩
    rw [hkeyed.eq_of_id hrow hjob hrowid]
  have hkept : Kept (Transition.runFrom (step c) s es).db job.id job.status := by
    have hreach : Transition.Reachable (Eq s) StatusUnraced (step c)
        (Transition.runFrom (step c) s es) :=
      (Transition.Reachable.start rfl).runFrom hes
    refine hreach.invariant (I := fun s => Kept s.db job.id job.status) ?_ ?_
    · rintro _ rfl
      exact hstart
    · exact fun s e h hok => h.step ht c hok
  exact hkept.same job' hjob' hid

/-- A job is with the bridge, which has not answered yet, when the user aborts it. -/
def abortedEarly : List Event :=
  [.worker {}, .worker {}] ++ uploads porch ++
    [.otaStart 1, .worker {}, .worker {}, .worker {}, .otaAbort true true 5, .abortReply 0 false 6]

/-- Without the condition an aborted job comes back: the acceptance that the worker was waiting for
is written over the abort. -/
theorem not_terminal_absorbing :
    ¬ ∀ s es, Transition.Reachable Fresh (fun _ _ => True) (step {}) s → ∀ job ∈ s.db.jobs,
      job.status.isTerminal = true → ∀ job' ∈ (Transition.runFrom (step {}) s es).db.jobs,
        job'.id = job.id → job'.status = job.status := by
  intro h
  have hrun : Transition.Admits (fun _ _ => True) (step {}) {} abortedEarly := by decide +kernel
  have hfinal := h _ [.worker {}] (reachable_runFrom hrun)
  revert hfinal
  decide +kernel

/-- The transfer is under way when the user aborts it, and the bridge asks for more chunks. -/
def abortedLater : List Event :=
  [.worker {}, .worker {}] ++ uploads porch ++ [.otaStart 1, .worker {}, .worker {}, .worker {},
    .worker {}, .chunkRequest 4, .chunkReply 0 false 5, .otaAbort true true 6, .abortReply 0 false 7]

/-- The worker sees the abort, the device is compiled for, and the new file is flashed. -/
def afterAbort : List Event :=
  [.chunkRequest 8, .worker {}, .worker {}, .compileDeviceConfig porch "porch" true 9, .compiler {},
    .compiler {}, .compiler {}, .compiler {}, .compiler {}, .compiler {}, .compiler {}, .worker {},
    .worker { topology := .found { online := true } }]

/-- A job that is aborted in the middle of its transfer stays so while the bridge asks for more, the
worker ends its turn, and the device is compiled for and flashed again. -/
theorem terminal_absorbing_abortedLater :
    (Transition.runFrom (step {}) {} abortedLater).db.jobs.map (·.status) = [.aborted] ∧
      ∀ job ∈ (Transition.runFrom (step {}) {} abortedLater).db.jobs, ∀ job' ∈
        (Transition.runFrom (step {}) (Transition.runFrom (step {}) {} abortedLater) afterAbort).db.jobs,
          job'.id = job.id → job'.status = job.status := by
  have hrun : Transition.Admits StatusUnraced (step {}) {} abortedLater := by decide +kernel
  have hrest : Transition.Admits StatusUnraced (step {})
      (Transition.runFrom (step {}) {} abortedLater) afterAbort := by decide +kernel
  have hended : ∀ job ∈ (Transition.runFrom (step {}) {} abortedLater).db.jobs,
      job.status.isTerminal = true := by decide +kernel
  refine ⟨by decide +kernel, fun job hjob job' hjob' hid => ?_⟩
  exact terminal_absorbing (reachable_runFrom hrun) hrest hjob (hended job hjob) hjob' hid

end EspTree.AddOn
