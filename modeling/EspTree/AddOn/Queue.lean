import EspTree.AddOn.Exclusive
import EspTree.Lib.Ranked

/-!
# The queue

The queued jobs should form a list: a job joins it at the end and leaves it at the front, and the
user moves one past its neighbour.  The table keeps the list as a column, which the operations read
in two ways.  `ORDER BY` and `create_job` take it as a rank, where gaps do no harm.  `ota_start`, the
retry of a start, the move to the back and the two moves of the user take it as a place, counted from
the front; since nothing is renumbered when a job leaves the queue, the two can differ.
-/

namespace EspTree.AddOn

open Wire

namespace Database

variable (db : Database)

/-- The ids of the queued jobs, in the order in which they are taken. -/
def queue : List Nat := db.queuedJobs.map (·.id)

/-- The `queue_order` of the job. -/
def order (id : Nat) : Nat := ((db.getJob id).bind (·.queueOrder)).getD 0

/-- The job is queued. -/
def IsQueued (id : Nat) : Prop := ∃ job, db.getJob id = some job ∧ job.status = .queued

variable {db} {id : Nat}

/-- A job is found under its own id, since ids are given out once. -/
theorem getJob_of_mem (hk : Keyed db) {job : Job} (hjob : job ∈ db.jobs) :
    db.getJob job.id = some job := by
  cases hfound : db.getJob job.id with
  | none =>
    have hnone := List.find?_eq_none.1 hfound job hjob
    simp at hnone
  | some found =>
    obtain ⟨hmem, hid⟩ := mem_of_getJob hfound
    rw [hk.eq_of_id hmem hjob hid]

/-- An update of one row is seen at its id only. -/
theorem getJob_updateJob {f : Job → Job} (hid : ∀ job, (f job).id = job.id) (a : Nat) :
    (db.updateJob id f).getJob a = (db.getJob a).map fun job => if a = id then f job else job := by
  have hkey : ((fun job : Job => job.id == a) ∘ fun job => if job.id = id then f job else job) =
      fun job => job.id == a := by
    funext job
    by_cases hj : job.id = id <;> simp [hj, hid]
  rw [updateJob, getJob, List.find?_map, hkey, getJob]
  cases hfound : db.jobs.find? fun job => job.id == a with
  | none => rfl
  | some job =>
    have hja : job.id = a := by simpa using List.find?_some hfound
    rw [← hja]
    rfl

theorem updateJob_of_none {f : Job → Job} (h : db.getJob id = none) : db.updateJob id f = db := by
  have hjobs : (db.jobs.map fun job => if job.id = id then f job else job) = db.jobs := by
    refine (List.map_congr_left fun job hjob => if_neg ?_).trans (List.map_id _)
    simpa using List.find?_eq_none.1 h job hjob
  rw [updateJob, hjobs]

/-- A deleted row is found no more, and all others are as before. -/
theorem getJob_deleteJob (a : Nat) :
    (db.deleteJob id).getJob a = if a = id then none else db.getJob a := by
  rw [deleteJob, getJob, List.find?_filter]
  split_ifs with ha
  · rw [List.find?_eq_none]
    simp [ha]
  · rw [getJob]
    congr 1
    funext job
    by_cases hj : job.id = a <;> simp [hj, ha]

/-- A new row is found under the id that it was given. -/
theorem getJob_createJob (hk : Keyed db) (values : Job) (now a : Nat) :
    (db.createJob values now).1.getJob a =
      if a = db.nextId then some (db.createJob values now).2 else db.getJob a := by
  have hjobs : (db.createJob values now).1.jobs = db.jobs ++ [(db.createJob values now).2] := rfl
  have hnew : (db.createJob values now).2.id = db.nextId := rfl
  rw [getJob, hjobs, List.find?_append]
  by_cases ha : a = db.nextId
  · have hnone : db.jobs.find? (fun job => job.id == a) = none := by
      rw [List.find?_eq_none]
      intro job hjob
      simpa [ha] using (hk.bounded job hjob).ne
    rw [hnone, if_pos ha, Option.none_or, List.find?_cons_of_pos (by simp [hnew, ha])]
  · rw [List.find?_cons_of_neg (by simpa [hnew] using Ne.symm ha), List.find?_nil, Option.or_none,
      if_neg ha, getJob]

/-- A row has the place of its id in the list; rows off the list stay as they are. -/
theorem getJob_renumber {ids : List Nat} (hids : ids.Nodup) (a : Nat) :
    (db.renumber ids).getJob a = (db.getJob a).map fun job =>
      if a ∈ ids then { job with queueOrder := some (ids.idxOf a) } else job := by
  have hfrom (n : Nat) (db : Database) : ((ids.zipIdx n).foldl (fun db p =>
      db.updateJob p.1 fun job => { job with queueOrder := some p.2 }) db).getJob a =
        (db.getJob a).map fun job =>
          if a ∈ ids then { job with queueOrder := some (n + ids.idxOf a) } else job := by
    induction ids generalizing n db with
    | nil => simp
    | cons id ids ih =>
      have hset : (db.updateJob id fun job => { job with queueOrder := some n }).getJob a =
          (db.getJob a).map fun job => if a = id then { job with queueOrder := some n } else job := by
        refine getJob_updateJob ?_ a
        exact fun _ => rfl
      rw [List.zipIdx_cons, List.foldl_cons, ih hids.of_cons, hset, Option.map_map]
      congr 1
      funext job
      by_cases ha : a = id
      · have hnot : id ∉ ids := (List.nodup_cons.1 hids).1
        simp [ha, hnot]
      · have hne : id ≠ a := Ne.symm ha
        simp only [Function.comp_apply, ha, if_false, List.mem_cons, false_or,
          List.idxOf_cons_ne _ hne]
        split_ifs
        · rw [Nat.succ_eq_add_one, Nat.add_right_comm, Nat.add_assoc]
        · rfl
  simpa [renumber] using hfrom 0 db

/-- The list of the queue has the queued jobs in it. -/
theorem mem_queue (hk : Keyed db) : id ∈ db.queue ↔ db.IsQueued id := by
  constructor
  · intro h
    obtain ⟨job, hjob, rfl⟩ := List.mem_map.1 h
    obtain ⟨hmem, hst⟩ := List.mem_filter.1 ((List.mem_insertionSort _).1 hjob)
    exact ⟨job, getJob_of_mem hk hmem, by simpa using hst⟩
  · rintro ⟨job, hjob, hst⟩
    obtain ⟨hmem, rfl⟩ := mem_of_getJob hjob
    refine List.mem_map_of_mem ((List.mem_insertionSort _).2 (List.mem_filter.2 ⟨hmem, ?_⟩))
    simpa using hst

/-- No job is queued twice. -/
theorem queue_nodup (hk : Keyed db) : db.queue.Nodup := by
  have hperm : db.queue.Perm ((db.listJobsByStatus .queued).map (·.id)) :=
    (List.perm_insertionSort _ _).map _
  exact hperm.nodup_iff.2 (hk.unique.sublist (List.filter_sublist.map _))

end Database

/-- The queued jobs have places, which increase along the queue. -/
structure QueueInv (db : Database) : Prop where
  keyed : Keyed db
  placed : ∀ job ∈ db.jobs, job.status = .queued → job.queueOrder.isSome = true
  ranked : Ranked db.order db.queue

namespace QueueInv

variable {db : Database} {id : Nat}

/-- A list of the queued jobs in the order of their places is the queue. -/
theorem intro (hk : Keyed db)
    (hplaced : ∀ job ∈ db.jobs, job.status = .queued → job.queueOrder.isSome = true) {ids : List Nat}
    (hranked : Ranked db.order ids) (hmem : ∀ a, a ∈ ids ↔ db.IsQueued a) :
    db.queue = ids ∧ QueueInv db := by
  have hkey : ∀ job ∈ db.queuedJobs, db.order job.id + 1 = (job.queueOrder.map (· + 1)).getD 0 := by
    intro job hjob
    obtain ⟨hmem, hst⟩ := List.mem_filter.1 ((List.mem_insertionSort _).1 hjob)
    obtain ⟨order, horder⟩ := Option.isSome_iff_exists.1 (hplaced job hmem (by simpa using hst))
    simp [Database.order, Database.getJob_of_mem hk hmem, horder]
  have hsorted : db.queue.Pairwise fun a b => db.order a ≤ db.order b := by
    rw [Database.queue, List.pairwise_map]
    refine List.Pairwise.imp_of_mem ?_ (List.pairwise_insertionSort _ _)
    intro a b ha hb hle
    have ha := hkey a ha
    have hb := hkey b hb
    omega
  have hqueue : ids = db.queue := by
    refine hranked.unique hsorted (Database.queue_nodup hk) fun a => ?_
    rw [hmem, Database.mem_queue hk]
  exact ⟨hqueue.symm, hk, hplaced, hqueue ▸ hranked⟩

theorem fresh {s : Server} (h : Fresh s) : QueueInv s.db := by
  rw [h]
  exact ⟨.fresh rfl, by simp, List.Pairwise.nil⟩

theorem evolves_update {f : Job → Job} (hid : ∀ job, (f job).id = job.id)
    (hmac : ∀ job, (f job).mac = job.mac) :
    Evolves (fun _ _ => True) Nobody db (db.updateJob id f) :=
  .update hid hmac fun _ => .inr trivial

theorem isQueued_updateJob {f : Job → Job} (hid : ∀ job, (f job).id = job.id) {a : Nat}
    (ha : a ≠ id) : (db.updateJob id f).IsQueued a ↔ db.IsQueued a := by
  have hget : (db.updateJob id f).getJob a = db.getJob a := by
    rw [Database.getJob_updateJob hid]
    simp [ha]
  rw [Database.IsQueued, Database.IsQueued, hget]

theorem order_updateJob {f : Job → Job} (hid : ∀ job, (f job).id = job.id) {a : Nat}
    (ha : a ≠ id) : (db.updateJob id f).order a = db.order a := by
  rw [Database.order, Database.getJob_updateJob hid]
  simp [ha, Database.order]

/-- A job joins the queue at the end, or moves there. -/
theorem toBack (h : QueueInv db) {f : Job → Job} {n : Nat} (hid : ∀ job, (f job).id = job.id)
    (hmac : ∀ job, (f job).mac = job.mac) (hst : ∀ job, (f job).status = .queued)
    (hn : ∀ job, (f job).queueOrder = some n) (hrow : (db.getJob id).isSome = true)
    (hlt : ∀ a ∈ db.queue, a ≠ id → db.order a < n) :
    (db.updateJob id f).queue = moveBack id db.queue ∧ QueueInv (db.updateJob id f) := by
  obtain ⟨job, hjob⟩ := Option.isSome_iff_exists.1 hrow
  have hget : (db.updateJob id f).getJob id = some (f job) := by
    rw [Database.getJob_updateJob hid, hjob]
    simp
  have hnodup := Database.queue_nodup h.keyed
  refine intro (h.keyed.evolves (evolves_update hid hmac)) ?_ ?_ fun a => ?_
  · intro job' hjob' hq
    obtain ⟨old, hold, rfl⟩ := List.mem_map.1 hjob'
    split_ifs at hq ⊢
    · simp [hn]
    · exact h.placed old hold hq
  · have hrest : Ranked (db.updateJob id f).order (db.queue.erase id) := by
      refine (h.ranked.sublist List.erase_sublist).congr fun a ha => ?_
      exact order_updateJob hid (hnodup.mem_erase_iff.1 ha).1
    refine hrest.append fun a ha => ?_
    have hmem := hnodup.mem_erase_iff.1 ha
    rw [order_updateJob hid hmem.1]
    refine (hlt a hmem.2 hmem.1).trans_eq ?_
    simp [Database.order, hget, hn]
  · rw [moveBack, List.mem_append, hnodup.mem_erase_iff, List.mem_singleton, Database.mem_queue h.keyed]
    by_cases ha : a = id
    · simp only [ha, ne_eq, not_true_eq_false, false_and, or_true, true_iff]
      exact ⟨f job, hget, hst job⟩
    · simp [ha, isQueued_updateJob hid ha]

/-- A job leaves the queue, or another job changes. -/
theorem leave (h : QueueInv db) {f : Job → Job} (hid : ∀ job, (f job).id = job.id)
    (hmac : ∀ job, (f job).mac = job.mac) (hst : ∀ job, (f job).status ≠ .queued) :
    (db.updateJob id f).queue = db.queue.erase id ∧ QueueInv (db.updateJob id f) := by
  have hnodup := Database.queue_nodup h.keyed
  refine intro (h.keyed.evolves (evolves_update hid hmac)) ?_ ?_ fun a => ?_
  · intro job' hjob' hq
    obtain ⟨old, hold, rfl⟩ := List.mem_map.1 hjob'
    split_ifs at hq ⊢
    · exact absurd hq (hst old)
    · exact h.placed old hold hq
  · refine (h.ranked.sublist List.erase_sublist).congr fun a ha => ?_
    exact order_updateJob hid (hnodup.mem_erase_iff.1 ha).1
  · rw [hnodup.mem_erase_iff, Database.mem_queue h.keyed]
    by_cases ha : a = id
    · rw [ha]
      refine ⟨fun hmem => absurd rfl hmem.1, ?_⟩
      rintro ⟨job, hjob, hq⟩
      rw [Database.getJob_updateJob hid] at hjob
      obtain ⟨old, -, rfl⟩ := Option.map_eq_some_iff.1 hjob
      rw [if_pos rfl] at hq
      exact absurd hq (hst old)
    · simp [ha, isQueued_updateJob hid ha]

/-- A column that the queue does not depend on. -/
theorem touch (h : QueueInv db) {f : Job → Job} (hid : ∀ job, (f job).id = job.id)
    (hmac : ∀ job, (f job).mac = job.mac) (hst : ∀ job, (f job).status = job.status)
    (hn : ∀ job, (f job).queueOrder = job.queueOrder) :
    (db.updateJob id f).queue = db.queue ∧ QueueInv (db.updateJob id f) := by
  refine intro (h.keyed.evolves (evolves_update hid hmac)) ?_ ?_ fun a => ?_
  · intro job' hjob' hq
    obtain ⟨old, hold, rfl⟩ := List.mem_map.1 hjob'
    split_ifs at hq ⊢
    · rw [hn]
      exact h.placed old hold (hst old ▸ hq)
    · exact h.placed old hold hq
  · refine h.ranked.congr fun a _ => ?_
    rw [Database.order, Database.getJob_updateJob hid, Database.order]
    cases db.getJob a with
    | none => rfl
    | some job =>
      simp only [Option.map_some, Option.bind_some]
      split_ifs
      · rw [hn]
      · rfl
  · rw [Database.mem_queue h.keyed, Database.IsQueued, Database.IsQueued, Database.getJob_updateJob hid]
    cases db.getJob a with
    | none => simp
    | some job =>
      simp only [Option.map_some, Option.some.injEq, exists_eq_left']
      split_ifs
      · rw [hst]
      · rfl

/-- The queued jobs are numbered along a list of them. -/
theorem renumber (hk : Keyed db) {ids : List Nat} (hids : ids.Nodup)
    (hmem : ∀ a, a ∈ ids ↔ db.IsQueued a) :
    (db.renumber ids).queue = ids ∧ QueueInv (db.renumber ids) := by
  have hget (a : Nat) : (db.renumber ids).getJob a = (db.getJob a).map fun job =>
      if a ∈ ids then { job with queueOrder := some (ids.idxOf a) } else job :=
    Database.getJob_renumber hids a
  refine intro (hk.evolves (Evolves.renumber ids)) ?_ ?_ fun a => ?_
  · intro job hjob hq
    have hrow := Database.getJob_of_mem (hk.evolves (Evolves.renumber ids)) hjob
    rw [hget] at hrow
    obtain ⟨old, hold, heq⟩ := Option.map_eq_some_iff.1 hrow
    have hst : old.status = .queued := by
      rw [← hq, ← heq]
      split_ifs <;> rfl
    rw [if_pos ((hmem _).2 ⟨old, hold, hst⟩)] at heq
    rw [← heq]
    rfl
  · refine (Ranked.idxOf hids).congr fun a ha => ?_
    obtain ⟨job, hjob, -⟩ := (hmem a).1 ha
    rw [Database.order, hget, hjob]
    simp [ha]
  · rw [hmem, Database.IsQueued, Database.IsQueued, hget]
    cases db.getJob a with
    | none => simp
    | some job =>
      simp only [Option.map_some, Option.some.injEq, exists_eq_left']
      split_ifs <;> rfl

theorem isQueued_deleteJob {a : Nat} :
    (db.deleteJob id).IsQueued a ↔ a ≠ id ∧ db.IsQueued a := by
  rw [Database.IsQueued, Database.IsQueued, Database.getJob_deleteJob]
  by_cases ha : a = id <;> simp [ha]

/-- A job is taken out of the table. -/
theorem abort (h : QueueInv db) :
    (db.abortQueuedJob id).queue = db.queue.erase id ∧ QueueInv (db.abortQueuedJob id) := by
  have hnodup := Database.queue_nodup h.keyed
  have hdelete : (db.deleteJob id).queue = db.queue.erase id ∧ QueueInv (db.deleteJob id) := by
    refine intro (h.keyed.evolves (Evolves.delete (P := Never) (Q := Nobody) id)) ?_ ?_ fun a => ?_
    · exact fun job hjob => h.placed job (List.mem_filter.1 hjob).1
    · refine (h.ranked.sublist List.erase_sublist).congr fun a ha => ?_
      rw [Database.order, Database.getJob_deleteJob, if_neg (hnodup.mem_erase_iff.1 ha).1]
      rfl
    · rw [hnodup.mem_erase_iff, Database.mem_queue h.keyed, isQueued_deleteJob]
  have hrenumber := renumber hdelete.2.keyed (Database.queue_nodup hdelete.2.keyed) fun a =>
    Database.mem_queue hdelete.2.keyed
  rw [← hdelete.1]
  exact hrenumber

/-- `create_job` and the endpoints put a job behind all that wait. -/
theorem lt_nextOrder {status : Status} {job : Job} {order : Nat} (hjob : job ∈ db.jobs)
    (hst : job.status = status) (horder : job.queueOrder = some order) :
    order < db.nextOrder status := by
  have hmax (orders : List Nat) : ∀ n, n ≤ orders.foldl (fun n order => max n (order + 1)) n ∧
      ∀ order ∈ orders, order < orders.foldl (fun n order => max n (order + 1)) n := by
    induction orders with
    | nil => simp
    | cons o orders ih =>
      intro n
      obtain ⟨hle, hlt⟩ := ih (max n (o + 1))
      rw [List.foldl_cons]
      refine ⟨(le_max_left _ _).trans hle, fun order horder => ?_⟩
      rcases List.mem_cons.1 horder with rfl | horder
      · omega
      · exact hlt order horder
  refine (hmax _ 0).2 order (List.mem_filterMap.2 ⟨job, ?_, horder⟩)
  exact List.mem_filter.2 ⟨hjob, by simpa using hst⟩

/-- A created job joins the queue at its end, if it is created as queued. -/
theorem create (h : QueueInv db) (values : Job) (now : Nat) :
    (db.createJob values now).1.queue =
        (if values.status = .queued then moveBack db.nextId db.queue else db.queue) ∧
      QueueInv (db.createJob values now).1 := by
  have hk : Keyed (db.createJob values now).1 :=
    h.keyed.evolves (Evolves.create (P := Never) (Q := fun _ _ => True) now trivial)
  have hnot : db.nextId ∉ db.queue := by
    intro hmem
    obtain ⟨job, hjob, -⟩ := (Database.mem_queue h.keyed).1 hmem
    obtain ⟨hmem, hid⟩ := Database.mem_of_getJob hjob
    exact absurd hid (h.keyed.bounded job hmem).ne
  have hget (a : Nat) := Database.getJob_createJob h.keyed values now a
  have hold {a : Nat} (ha : a ∈ db.queue) :
      (db.createJob values now).1.order a = db.order a := by
    have hne : a ≠ db.nextId := fun heq => hnot (heq ▸ ha)
    rw [Database.order, hget, if_neg hne, Database.order]
  have hplaced : ∀ job ∈ (db.createJob values now).1.jobs, job.status = .queued →
      job.queueOrder.isSome = true := by
    intro job hjob hq
    rcases List.mem_append.1 hjob with hjob | hjob
    · exact h.placed job hjob hq
    · rw [List.mem_singleton.1 hjob] at hq ⊢
      simp [show values.status = .queued from hq]
  by_cases hq : values.status = .queued
  · rw [if_pos hq, moveBack, List.erase_of_not_mem hnot]
    refine intro hk hplaced (Ranked.append (h.ranked.congr fun a ha => hold ha) ?_) fun a => ?_
    · intro a ha
      obtain ⟨job, hjob, hst⟩ := (Database.mem_queue h.keyed).1 ha
      obtain ⟨hmem, rfl⟩ := Database.mem_of_getJob hjob
      obtain ⟨order, horder⟩ := Option.isSome_iff_exists.1 (h.placed job hmem hst)
      have hlt := lt_nextOrder hmem hst horder
      rw [hold ha, Database.order, hjob, Database.order, hget, if_pos rfl]
      simpa [horder, Database.createJob, hq] using hlt
    · rw [List.mem_append, List.mem_singleton, Database.mem_queue h.keyed, Database.IsQueued,
        Database.IsQueued, hget]
      by_cases ha : a = db.nextId
      · simp [ha, Database.createJob, hq]
      · simp [ha]
  · rw [if_neg hq]
    refine intro hk hplaced (h.ranked.congr fun a ha => hold ha) fun a => ?_
    rw [Database.mem_queue h.keyed, Database.IsQueued, Database.IsQueued, hget]
    by_cases ha : a = db.nextId
    · have hnone : db.getJob db.nextId = none := by
        by_contra hsome
        obtain ⟨job, hjob⟩ := Option.ne_none_iff_exists'.1 hsome
        obtain ⟨hmem, hid⟩ := Database.mem_of_getJob hjob
        exact absurd hid (h.keyed.bounded job hmem).ne
      simp [ha, Database.createJob, hq, hnone]
    · simp [ha]

/-- `reorder_queue` puts the job at the place `n` among the others. -/
theorem reorder (h : QueueInv db) (hid : id ∈ db.queue) (n : Nat) :
    (db.reorderQueue id n).queue = (db.queue.erase id).take n ++ id :: (db.queue.erase id).drop n ∧
      QueueInv (db.reorderQueue id n) := by
  have hperm : ((db.queue.erase id).take n ++ id :: (db.queue.erase id).drop n).Perm db.queue := by
    refine List.perm_middle.trans ?_
    rw [List.take_append_drop]
    exact (List.perm_cons_erase hid).symm
  have hreorder : db.reorderQueue id n =
      db.renumber ((db.queue.erase id).take n ++ id :: (db.queue.erase id).drop n) := by
    unfold Database.reorderQueue
    exact if_neg (not_not.2 hid)
  rw [hreorder]
  refine renumber h.keyed (hperm.nodup_iff.2 (Database.queue_nodup h.keyed)) fun a => ?_
  rw [hperm.mem_iff, Database.mem_queue h.keyed]

end QueueInv

/-! ## The operations -/

/-- `_process_v2`, when a start is tried again. -/
def Server.requeue (s : Server) (id : Nat) (message : String) : Server :=
  { s with
    retryCounts := setCount s.retryCounts id (s.retryCounts id + 1)
    db := s.db.updateJob id fun job => { job with
      status := .queued
      queueOrder := some s.db.queuedJobs.length
      errorMsg := some ("ota.start retry: " ++ message) } }

/-- The operations on the queue.  A job is taken when its device is online, and has failed to be
taken when it is not. -/
inductive QueueOp
  | create (values : Job) (now : Nat)
  | start (id : Nat)
  | dequeue
  | retry (id : Nat) (message : String)
  | failDequeue (reason : String)
  | abort (id : Nat)
  | up (id : Nat)
  | down (id : Nat)

/-- One operation, as the source has it. -/
def QueueOp.step (s : Server) : QueueOp → Server
  | .create values now => { s with db := (s.db.createJob values now).1 }
  | .start id => s.otaStart id
  | .dequeue =>
    match s.db.nextQueuedJob with
    | none => s
    | some job => s.dequeued { topology := .found { online := true } } job
  | .retry id message => s.requeue id message
  | .failDequeue reason =>
    match s.db.nextQueuedJob with
    | none => s
    | some job => s.handleDequeueFailure job reason
  | .abort id => s.dropJob .queued id
  | .up id => s.otaQueueUp id
  | .down id => s.otaQueueDown id

/-- What an operation should do to the list of queued jobs. -/
inductive Command
  | skip
  | pop
  | toBack (id : Nat)
  | remove (id : Nat)
  | up (id : Nat)
  | down (id : Nat)

def Command.apply : Command → List Nat → List Nat
  | .skip, l => l
  | .pop, l => l.tail
  | .toBack id, l => moveBack id l
  | .remove id, l => l.erase id
  | .up id, l => moveUp id l
  | .down id, l => moveDown id l

namespace Server

variable (s : Server)

/-- `ota_start` puts the job behind other work. -/
def startQueues (id : Nat) : Bool :=
  (s.db.getJob id).any (·.status == .pendingConfirm) && s.db.flashWorkPending (some id)

/-- The first job has failed three times, and there are others. -/
def movesBack : Bool :=
  s.db.nextQueuedJob.any (fun job => decide (2 ≤ s.dequeueFailureCounts job.id)) &&
    decide (1 < s.db.queuedJobs.length)

/-- What the operation amounts to. -/
def command : QueueOp → Command
  | .create values _ => if values.status = .queued then .toBack s.db.nextId else .skip
  | .start id => if s.startQueues id then .toBack id else .skip
  | .dequeue => .pop
  | .retry id _ => if (s.db.getJob id).isSome then .toBack id else .skip
  | .failDequeue _ =>
    match s.db.nextQueuedJob with
    | none => .skip
    | some job => if s.movesBack then .toBack job.id else .skip
  | .abort id => .remove id
  | .up id => .up id
  | .down id => .down id

end Server

/-- The places of the other queued jobs are below their number when a job is queued by `ota_start` or
by a retry, a job that the user moves has the place that it says, and no job is moved to the back. -/
def QueueOk (s : Server) : QueueOp → Prop
  | .start id => s.startQueues id = true → ∀ a ∈ s.db.queue, s.db.order a < s.db.queue.length
  | .retry id _ => ∀ a ∈ s.db.queue, a ≠ id → s.db.order a < s.db.queue.length
  | .failDequeue _ => s.movesBack = false
  | .up id | .down id => id ∈ s.db.queue → s.db.order id = s.db.queue.idxOf id
  | _ => True

instance (s : Server) : (op : QueueOp) → Decidable (QueueOk s op)
  | .start id => inferInstanceAs (Decidable (s.startQueues id = true →
      ∀ a ∈ s.db.queue, s.db.order a < s.db.queue.length))
  | .retry id _ => inferInstanceAs (Decidable (∀ a ∈ s.db.queue, a ≠ id →
      s.db.order a < s.db.queue.length))
  | .failDequeue _ => inferInstanceAs (Decidable (s.movesBack = false))
  | .up id | .down id => inferInstanceAs (Decidable (id ∈ s.db.queue →
      s.db.order id = s.db.queue.idxOf id))
  | .create _ _ | .dequeue | .abort _ => .isTrue trivial

namespace QueueInv

variable {s : Server}

/-- The job that the worker takes is the head of the queue. -/
theorem nextQueuedJob (h : QueueInv s.db) {job : Job} (hjob : s.db.nextQueuedJob = some job) :
    s.db.queue.head? = some job.id ∧ s.db.getJob job.id = some job ∧ job.status = .queued := by
  have hhead : s.db.queuedJobs.head? = some job := hjob
  obtain ⟨hmem, hst⟩ :=
    List.mem_filter.1 ((List.mem_insertionSort _).1 (List.mem_of_mem_head? hhead))
  exact ⟨by rw [Database.queue, List.head?_map, hhead]; rfl, Database.getJob_of_mem h.keyed hmem,
    by simpa using hst⟩

/-- A job that is not queued is not in the list. -/
theorem erase_of_status (h : QueueInv s.db) {id : Nat} {job : Job} (hjob : s.db.getJob id = some job)
    (hst : job.status ≠ .queued) : s.db.queue.erase id = s.db.queue := by
  refine List.erase_of_not_mem fun hmem => ?_
  obtain ⟨job', hjob', hst'⟩ := (Database.mem_queue h.keyed).1 hmem
  rw [hjob] at hjob'
  cases hjob'
  exact hst hst'

/-- `ota_start` puts a job at the end of the list, if the number of queued jobs is above every
order. -/
theorem start (h : QueueInv s.db) (id : Nat) (hok : QueueOk s (.start id)) :
    (s.otaStart id).db.queue = (s.command (.start id)).apply s.db.queue ∧
      QueueInv (s.otaStart id).db := by
  unfold Server.otaStart
  cases hjob : s.db.getJob id with
  | none => exact ⟨by simp [Server.command, Server.startQueues, hjob, Command.apply], h⟩
  | some job =>
    dsimp only
    by_cases hst : job.status = .pendingConfirm
    · rw [if_neg (not_not.2 hst)]
      unfold Server.confirm
      by_cases hwork : s.db.flashWorkPending (some id) = true
      · have hqueues : s.startQueues id = true := by
          simp [Server.startQueues, hjob, hst, hwork]
        rw [if_pos hwork]
        simp only [Server.command, hqueues, if_true, Command.apply]
        refine h.toBack (fun _ => rfl) (fun _ => rfl) (fun _ => rfl) (fun _ => rfl) (by simp [hjob]) ?_
        intro a ha _
        have hlt := hok hqueues a ha
        rwa [Database.queue, List.length_map] at hlt
      · rw [if_neg hwork]
        simp only [Server.command, Server.startQueues, hwork, Bool.and_false, Bool.false_eq_true,
          if_false, Command.apply]
        rw [← h.erase_of_status hjob (by simp [hst])]
        exact h.leave (fun _ => rfl) (fun _ => rfl) fun _ => by simp
    · rw [if_pos hst]
      exact ⟨by simp [Server.command, Server.startQueues, hjob, hst, Command.apply], h⟩

/-- The worker takes the job at the front. -/
theorem dequeue (h : QueueInv s.db) :
    (QueueOp.step s .dequeue).db.queue = s.db.queue.tail ∧ QueueInv (QueueOp.step s .dequeue).db := by
  unfold QueueOp.step
  cases hjob : s.db.nextQueuedJob with
  | none =>
    have hnil : s.db.queuedJobs = [] := List.head?_eq_none_iff.1 hjob
    exact ⟨by simp [Database.queue, hnil], h⟩
  | some job =>
    obtain ⟨hhead, -, -⟩ := h.nextQueuedJob hjob
    have htail : s.db.queue.tail = s.db.queue.erase job.id := by
      cases hqueue : s.db.queue with
      | nil => rfl
      | cons a l =>
        rw [hqueue, List.head?_cons, Option.some_inj] at hhead
        rw [hhead, List.tail_cons, List.erase_cons_head]
    rw [htail]
    exact h.leave (fun _ => rfl) (fun _ => rfl) fun _ => by simp

/-- A start that is tried again puts the job behind the others, again with the number of queued jobs
as its order. -/
theorem retry (h : QueueInv s.db) (id : Nat) (message : String) (hok : QueueOk s (.retry id message)) :
    (s.requeue id message).db.queue = (s.command (.retry id message)).apply s.db.queue ∧
      QueueInv (s.requeue id message).db := by
  by_cases hrow : (s.db.getJob id).isSome = true
  · simp only [Server.command, hrow, if_true, Command.apply]
    refine h.toBack (fun _ => rfl) (fun _ => rfl) (fun _ => rfl) (fun _ => rfl) hrow ?_
    intro a ha hne
    have hlt := hok a ha hne
    rwa [Database.queue, List.length_map] at hlt
  · have hsame : (s.requeue id message).db = s.db :=
      Database.updateJob_of_none (by simpa using hrow)
    rw [hsame]
    simp only [Server.command, hrow, Bool.false_eq_true, if_false, Command.apply]
    exact ⟨trivial, h⟩

/-- A job whose device is offline keeps its place, unless it is moved to the back. -/
theorem failDequeue (h : QueueInv s.db) (reason : String) (hok : QueueOk s (.failDequeue reason)) :
    (QueueOp.step s (.failDequeue reason)).db.queue =
        (s.command (.failDequeue reason)).apply s.db.queue ∧
      QueueInv (QueueOp.step s (.failDequeue reason)).db := by
  have hok : s.movesBack = false := hok
  unfold QueueOp.step Server.command
  cases hjob : s.db.nextQueuedJob with
  | none => exact ⟨rfl, h⟩
  | some job =>
    simp only [hok, Bool.false_eq_true, if_false, Command.apply]
    unfold Server.handleDequeueFailure
    dsimp only
    split_ifs with hcount hlen
    · exact h.touch (fun _ => rfl) (fun _ => rfl) (fun _ => rfl) fun _ => rfl
    · exact h.touch (fun _ => rfl) (fun _ => rfl) (fun _ => rfl) fun _ => rfl
    · simp only [Server.movesBack, hjob, Option.any_some, Bool.and_eq_false_iff,
        decide_eq_false_iff_not] at hok
      omega

/-- A job that the user drops leaves the queue wherever it was. -/
theorem abortOp (h : QueueInv s.db) (id : Nat) :
    (s.dropJob .queued id).db.queue = s.db.queue.erase id ∧ QueueInv (s.dropJob .queued id).db := by
  unfold Server.dropJob
  cases hjob : s.db.getJob id with
  | none =>
    refine ⟨(List.erase_of_not_mem fun hmem => ?_).symm, h⟩
    obtain ⟨job, hjob', -⟩ := (Database.mem_queue h.keyed).1 hmem
    simp [hjob] at hjob'
  | some job =>
    dsimp only
    split_ifs with hst
    · exact ⟨(h.erase_of_status hjob hst).symm, h⟩
    · exact h.abort

/-- A job that the user can move, and its place. -/
theorem place (h : QueueInv s.db) {id : Nat} {job : Job} (hjob : s.db.getJob id = some job)
    (hst : job.status = .queued) : id ∈ s.db.queue ∧ job.queueOrder = some (s.db.order id) := by
  refine ⟨(Database.mem_queue h.keyed).2 ⟨job, hjob, hst⟩, ?_⟩
  obtain ⟨order, horder⟩ :=
    Option.isSome_iff_exists.1 (h.placed job (Database.mem_of_getJob hjob).1 hst)
  simp [Database.order, hjob, horder]

/-- A move that is not for a queued job. -/
theorem not_mem_queue (h : QueueInv s.db) {id : Nat}
    (hnot : ∀ job, s.db.getJob id = some job → job.status ≠ .queued) : id ∉ s.db.queue := by
  intro hmem
  obtain ⟨job, hjob, hst⟩ := (Database.mem_queue h.keyed).1 hmem
  exact hnot job hjob hst

/-- The user moves a job one place to the front, if its order is its place. -/
theorem up (h : QueueInv s.db) (id : Nat) (hok : QueueOk s (.up id)) :
    (s.otaQueueUp id).db.queue = moveUp id s.db.queue ∧ QueueInv (s.otaQueueUp id).db := by
  unfold Server.otaQueueUp
  cases hjob : s.db.getJob id with
  | none => exact ⟨(moveUp_of_not_mem (h.not_mem_queue (by simp [hjob]))).symm, h⟩
  | some job =>
    dsimp only
    split_ifs with hst
    · exact ⟨(moveUp_of_not_mem (h.not_mem_queue (by simp [hjob, hst]))).symm, h⟩
    obtain ⟨hmem, horder⟩ := h.place hjob (by simpa using hst)
    have hplace : s.db.order id = s.db.queue.idxOf id := hok hmem
    rw [horder]
    split
    · rename_i order heq
      rw [← moveUp_eq hmem (hplace.symm.trans (Option.some.inj heq))]
      exact h.reorder hmem order
    · rename_i hnot
      have hzero : s.db.queue.idxOf id = 0 := by
        by_contra hne
        exact hnot (s.db.queue.idxOf id - 1) (by rw [hplace]; congr 1; omega)
      exact ⟨(moveUp_of_first (Database.queue_nodup h.keyed) hzero).symm, h⟩

/-- The user moves a job one place to the back, if its order is its place. -/
theorem down (h : QueueInv s.db) (id : Nat) (hok : QueueOk s (.down id)) :
    (s.otaQueueDown id).db.queue = moveDown id s.db.queue ∧ QueueInv (s.otaQueueDown id).db := by
  have hlength : s.db.queuedJobs.length = s.db.queue.length := by
    rw [Database.queue, List.length_map]
  unfold Server.otaQueueDown
  cases hjob : s.db.getJob id with
  | none => exact ⟨(moveDown_of_not_mem (h.not_mem_queue (by simp [hjob]))).symm, h⟩
  | some job =>
    dsimp only
    split_ifs with hst
    · exact ⟨(moveDown_of_not_mem (h.not_mem_queue (by simp [hjob, hst]))).symm, h⟩
    obtain ⟨hmem, horder⟩ := h.place hjob (by simpa using hst)
    have hplace : s.db.order id = s.db.queue.idxOf id := hok hmem
    rw [horder, hplace]
    dsimp only
    rw [hlength]
    split_ifs with hlast
    · exact ⟨(moveDown_of_last hlast).symm, h⟩
    · rw [← moveDown_eq (by omega)]
      exact h.reorder hmem _

/-- An operation does to the queue what it should. -/
theorem step (h : QueueInv s.db) (op : QueueOp) (hok : QueueOk s op) :
    (QueueOp.step s op).db.queue = (s.command op).apply s.db.queue ∧
      QueueInv (QueueOp.step s op).db := by
  cases op with
  | create values now =>
    have hcreate := h.create values now
    refine ⟨hcreate.1.trans ?_, hcreate.2⟩
    simp only [Server.command]
    split_ifs <;> rfl
  | start id => exact h.start id hok
  | dequeue => exact h.dequeue
  | retry id message => exact h.retry id message hok
  | failDequeue reason => exact h.failDequeue reason hok
  | abort id => exact h.abortOp id
  | up id => exact h.up id hok
  | down id => exact h.down id hok

/-- Different queued jobs have different places. -/
theorem distinct {db : Database} (h : QueueInv db) : (db.queuedJobs.map (·.queueOrder)).Nodup := by
  have horder : db.queuedJobs.map (·.queueOrder) = (db.queue.map db.order).map some := by
    rw [Database.queue, List.map_map, List.map_map]
    refine List.map_congr_left fun job hjob => ?_
    obtain ⟨hmem, hst⟩ := List.mem_filter.1 ((List.mem_insertionSort _).1 hjob)
    obtain ⟨order, horder⟩ := Option.isSome_iff_exists.1 (h.placed job hmem (by simpa using hst))
    simp [Database.order, Database.getJob_of_mem h.keyed hmem, horder]
  rw [horder]
  have hlt : (db.queue.map db.order).Nodup := List.Pairwise.map _ (fun _ _ hlt => hlt.ne) h.ranked
  exact hlt.map (Option.some_injective _)

end QueueInv

/-- The column keeps a list.  In every state that operations with `QueueOk` lead to, the orders of
the queued jobs are distinct, and each further operation with `QueueOk` does to the queue what it
should do to the list.  The condition is about the operations that take an order for a place: after a
job has left the front, a place is one less than the order says. -/
theorem queue_refines {s : Server} (hs : Transition.Reachable Fresh QueueOk QueueOp.step s) :
    (s.db.queuedJobs.map (·.queueOrder)).Nodup ∧ ∀ op, QueueOk s op →
      (QueueOp.step s op).db.queue = (s.command op).apply s.db.queue := by
  have hinv : QueueInv s.db :=
    hs.invariant (I := fun s => QueueInv s.db) (fun _ => QueueInv.fresh) fun s op h hok =>
      (h.step op hok).2
  exact ⟨hinv.distinct, fun op hok => (hinv.step op hok).1⟩

/-- A job for the device that awaits confirmation. -/
def pendingJob (mac : Mac) : Job := { id := 0, mac, status := .pendingConfirm }

/-- One job starts and two are queued; the first of them is taken, and a fourth job is queued. -/
def gap : List QueueOp :=
  (List.replicate 4 (.create (pendingJob porch) 0)) ++
    [.start 1, .start 2, .start 3, .dequeue, .start 4]

/-- Without the condition two jobs get one order: `ota_start` takes the number of queued jobs for
the next order, which the last job has already. -/
theorem not_queue_refines :
    ¬ ∀ s, Transition.Reachable Fresh (fun _ _ => True) QueueOp.step s →
      (s.db.queuedJobs.map (·.queueOrder)).Nodup ∧ ∀ op,
        (QueueOp.step s op).db.queue = (s.command op).apply s.db.queue := by
  intro h
  have hrun : Transition.Admits (fun _ _ => True) QueueOp.step {} gap := by decide +kernel
  have hfresh : Fresh {} := rfl
  have hdistinct := (h _ ((Transition.Reachable.start hfresh).runFrom hrun)).1
  revert hdistinct
  decide +kernel

/-- The user moves a job before one is taken, and a job is taken off before the next one is queued. -/
def dense : List QueueOp :=
  (List.replicate 5 (.create (pendingJob porch) 0)) ++
    [.start 1, .start 2, .start 3, .start 4, .up 4, .down 2, .abort 2, .start 5,
      .failDequeue "device offline", .dequeue]

/-- A run that keeps to the condition, with two moves, an abort and a job whose device is offline.
-/
theorem queue_refines_dense :
    (Transition.runFrom QueueOp.step {} dense).db.queue = [3, 5] ∧
      (QueueOp.step (Transition.runFrom QueueOp.step {} dense) .dequeue).db.queue = [5] := by
  have hrun : Transition.Admits QueueOk QueueOp.step {} dense := by decide +kernel
  have hfresh : Fresh {} := rfl
  have hqueue : (Transition.runFrom QueueOp.step {} dense).db.queue = [3, 5] := by decide +kernel
  have hnext := (queue_refines ((Transition.Reachable.start hfresh).runFrom hrun)).2 .dequeue trivial
  refine ⟨hqueue, hnext.trans ?_⟩
  rw [hqueue]
  rfl

end EspTree.AddOn
