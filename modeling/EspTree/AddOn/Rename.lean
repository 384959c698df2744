import EspTree.Lib.Integrity
import Mathlib.Data.List.Nodup

/-!
# A device under another MAC

`rename_device_mac` of `app/db.py`.  A row of `ota_jobs` refers to a row of `devices`, and SQLite checks that
at the end of every statement.  Where the new MAC has no row of its own, the row of the old one gets it before
the jobs do: with a job there is nothing that the statement could leave behind but a job without a device, so
it fails and nothing is renamed.  Where the new MAC has a row, the jobs come first, but the mark of a hidden
device goes with the old row.
-/

namespace EspTree.AddOn.Rename

open Wire

abbrev Text := List Char

/-! ## MAC addresses -/

/-- `[0-9A-Fa-f]`. -/
def isHexDigit (c : Char) : Bool :=
  ('0' ≤ c && c ≤ '9') || ('A' ≤ c && c ≤ 'F') || ('a' ≤ c && c ≤ 'f')

/-- A text with the digits of a MAC. -/
def IsMac (value : Text) : Prop := (value.filter isHexDigit).length = 12

instance : DecidablePred IsMac := fun _ => inferInstanceAs (Decidable (_ = _))

/-- `normalize_mac`; `stripUpper` is `value.strip().upper()`, for a text that is no MAC. -/
def normalizeMac (stripUpper : Text → Text) (value : Text) : Text :=
  if value.isEmpty then []
  else
    let compact := value.filter isHexDigit
    if compact.length ≠ 12 then stripUpper value
    else
      let pairs := (List.range 6).map fun i => ((compact.drop (2 * i)).take 2).map Char.toUpper
      List.intercalate [':'] pairs

theorem normalizeMac_ne_nil (stripUpper : Text → Text) {value : Text} (h : IsMac value) :
    normalizeMac stripUpper value ≠ [] := by
  have hne : value.isEmpty = false := by
    cases value with
    | nil => cases h
    | cons => rfl
  have hlength : ¬ (value.filter isHexDigit).length ≠ 12 := not_not_intro h
  simp only [normalizeMac, hne, Bool.false_eq_true, if_false, hlength]
  simp [List.range, List.range.loop, List.intercalate]

/-! ## The tables -/

/-- A row of `devices`. -/
structure Device where
  mac : Text
  updatedAt : Nat
  deriving DecidableEq

/-- A row of `ota_jobs`. -/
structure Job where
  id : Nat
  mac : Text
  deriving DecidableEq

/-- A row of `hidden_devices`. -/
structure Hidden where
  mac : Text
  hiddenAt : Nat
  deriving DecidableEq

structure Tables where
  devices : List Device
  jobs : List Job
  hidden : List Hidden
  deriving DecidableEq

namespace Tables

variable (t : Tables)

def macs : List Text := t.devices.map (·.mac)

/-- The primary keys, and `FOREIGN KEY (mac) REFERENCES devices(mac)`. -/
structure Sound : Prop where
  devices : t.macs.Nodup
  ids : (t.jobs.map (·.id)).Nodup
  hidden : (t.hidden.map (·.mac)).Nodup
  references : ∀ job ∈ t.jobs, job.mac ∈ t.macs

instance : DecidablePred Sound := fun t =>
  decidable_of_iff (t.macs.Nodup ∧ (t.jobs.map (·.id)).Nodup ∧ (t.hidden.map (·.mac)).Nodup ∧
    ∀ job ∈ t.jobs, job.mac ∈ t.macs)
    ⟨fun ⟨hd, hi, hh, hr⟩ => ⟨hd, hi, hh, hr⟩, fun h => ⟨h.devices, h.ids, h.hidden, h.references⟩⟩

/-! ## The statements -/

/-- `UPDATE devices SET mac = ?, updated_at = ? WHERE mac = ?`. -/
def updateDevice (new : Text) (now : Nat) (old : Text) : Tables :=
  { t with devices := t.devices.map fun row => if row.mac = old then ⟨new, now⟩ else row }

/-- `UPDATE ota_jobs SET mac = ? WHERE mac = ?`. -/
def updateJobs (new old : Text) : Tables :=
  { t with jobs := t.jobs.map fun row => if row.mac = old then { row with mac := new } else row }

/-- `DELETE FROM devices WHERE mac = ?`. -/
def deleteDevice (old : Text) : Tables := { t with devices := t.devices.filter (·.mac ≠ old) }

/-- `DELETE FROM hidden_devices WHERE mac = ?`. -/
def deleteHidden (old : Text) : Tables := { t with hidden := t.hidden.filter (·.mac ≠ old) }

/-- `INSERT OR REPLACE INTO hidden_devices (mac, hidden_at) VALUES (?, ?)`. -/
def replaceHidden (new : Text) (hiddenAt : Nat) : Tables :=
  { t with hidden := t.hidden.filter (·.mac ≠ new) ++ [⟨new, hiddenAt⟩] }

end Tables

/-- The database of `connect()`, with `PRAGMA foreign_keys=ON`. -/
abbrev Database := Checked Tables.Sound

/-- `sqlite3.IntegrityError`. -/
inductive Failure
  | integrityError
  deriving DecidableEq

/-- `conn.execute` of one statement. -/
def execute (statement : Tables → Tables) (db : Database) : Except Failure Database :=
  Checked.execute .integrityError statement db

/-- The statements between `BEGIN` and `COMMIT`. -/
def renameRows (now : Nat) (old new : Text) (db : Database) : Except Failure Database := do
  if db.1.devices.any (·.mac = new) then
    let db ← execute (·.updateJobs new old) db
    let db ← execute (·.deleteDevice old) db
    execute (·.deleteHidden old) db
  else
    let db ← execute (·.updateDevice new now old) db
    let db ← execute (·.updateJobs new old) db
    match db.1.hidden.find? (·.mac = old) with
    | none => return db
    | some row =>
      let db ← execute (·.replaceHidden new row.hiddenAt) db
      execute (·.deleteHidden old) db

def renameDeviceMac (stripUpper : Text → Text) (now : Nat) (oldMac newMac : Text) (db : Database) :
    Except Failure Unit × Database :=
  let old := normalizeMac stripUpper oldMac
  let new := normalizeMac stripUpper newMac
  if old.isEmpty || new.isEmpty || old = new then (.ok (), db)
  else if db.1.devices.any (·.mac = old) then Checked.transaction (renameRows now old new) db
  else (.ok (), db)

/-! ## What a rename is to do -/

namespace Tables

variable (t : Tables)

def HasJob (mac : Text) : Prop := mac ∈ t.jobs.map (·.mac)

def IsHidden (mac : Text) : Prop := mac ∈ t.hidden.map (·.mac)

/-- Everything of the old MAC is under the new one. -/
structure Renamed (old new : Text) (t' : Tables) : Prop where
  devices : old ∉ t'.macs
  noJob : ¬ t'.HasJob old
  noMark : ¬ t'.IsHidden old
  jobs : ∀ job ∈ t.jobs, job.mac = old ∨ job.mac = new → { job with mac := new } ∈ t'.jobs
  device : new ∈ t'.macs
  hidden : t.IsHidden old → t'.IsHidden new

/-- The mark has not to be moved, or the device is moved and has no jobs. -/
def Movable (old new : Text) : Prop :=
  if new ∈ t.macs then t.IsHidden old → t.IsHidden new else ¬ t.HasJob old

instance (mac : Text) : Decidable (t.HasJob mac) := inferInstanceAs (Decidable (_ ∈ _))

instance (mac : Text) : Decidable (t.IsHidden mac) := inferInstanceAs (Decidable (_ ∈ _))

instance (old new : Text) : Decidable (t.Movable old new) := inferInstanceAs (Decidable (ite _ _ _))

end Tables

/-- The rename went through, and did what it is to do. -/
def Renames (old new : Text) (db : Database) (out : Except Failure Unit × Database) : Prop :=
  out.1 = .ok () ∧ db.1.Renamed old new out.2.1

variable {t : Tables} {old new : Text} {now : Nat} {db : Database}

/-! ## The statements under the constraints -/

namespace Tables

/-- The row of the old MAC gets the new one. -/
theorem macs_updateDevice : (t.updateDevice new now old).macs = t.macs.map fun mac =>
    if mac = old then new else mac := by
  simp only [macs, updateDevice, List.map_map]
  refine List.map_congr_left fun row _ => ?_
  simp only [Function.comp_apply]
  split <;> rfl

/-- The row of the old MAC goes. -/
theorem macs_deleteDevice : (t.deleteDevice old).macs = t.macs.filter (· ≠ old) := by
  simp only [macs, deleteDevice, List.filter_map]
  rfl

theorem hidden_deleteHidden : (t.deleteHidden old).hidden.map (·.mac) =
    (t.hidden.map (·.mac)).filter (· ≠ old) := by
  simp only [deleteHidden, List.filter_map]
  rfl

/-- The jobs of the old MAC become jobs of the new one. -/
theorem jobs_updateJobs : (t.updateJobs new old).jobs.map (·.mac) =
    (t.jobs.map (·.mac)).map fun mac => if mac = old then new else mac := by
  simp only [updateJobs, List.map_map]
  refine List.map_congr_left fun row _ => ?_
  simp only [Function.comp_apply]
  split <;> rfl

theorem ids_updateJobs : (t.updateJobs new old).jobs.map (·.id) = t.jobs.map (·.id) := by
  simp only [updateJobs, List.map_map]
  refine List.map_congr_left fun row _ => ?_
  simp only [Function.comp_apply]
  split <;> rfl

/-- A renamed MAC is there no longer, unless it is the new one. -/
theorem notMem_map_rename {l : List Text} (hne : old ≠ new) :
    old ∉ l.map fun mac => if mac = old then new else mac := by
  intro hmem
  obtain ⟨mac, -, hmac⟩ := List.mem_map.mp hmem
  split at hmac
  · exact hne hmac.symm
  · contradiction

namespace Sound

/-- The jobs may go to a device that is there. -/
theorem updateJobs (h : t.Sound) (hnew : new ∈ t.macs) : (t.updateJobs new old).Sound where
  devices := h.devices
  ids := by
    rw [ids_updateJobs]
    exact h.ids
  hidden := h.hidden
  references := by
    intro job hjob
    obtain ⟨row, hrow, rfl⟩ := List.mem_map.mp hjob
    split
    · exact hnew
    · exact h.references row hrow

/-- A device without jobs may go. -/
theorem deleteDevice (h : t.Sound) (hold : ¬ t.HasJob old) : (t.deleteDevice old).Sound where
  devices := by
    rw [macs_deleteDevice]
    exact h.devices.filter _
  ids := h.ids
  hidden := h.hidden
  references := by
    intro job hjob
    rw [macs_deleteDevice]
    refine List.mem_filter.mpr ⟨h.references job hjob, ?_⟩
    have hmac : job.mac ≠ old := fun heq => hold (heq ▸ List.mem_map_of_mem hjob)
    simpa using hmac

theorem deleteHidden (h : t.Sound) : (t.deleteHidden old).Sound where
  devices := h.devices
  ids := h.ids
  hidden := by
    rw [hidden_deleteHidden]
    exact h.hidden.filter _
  references := h.references

theorem replaceHidden (h : t.Sound) (hiddenAt : Nat) : (t.replaceHidden new hiddenAt).Sound where
  devices := h.devices
  ids := h.ids
  hidden := by
    have hrest : ((t.deleteHidden new).hidden.map (·.mac)).Nodup := h.deleteHidden.hidden
    rw [hidden_deleteHidden] at hrest
    have hkeys : (t.replaceHidden new hiddenAt).hidden.map (·.mac) =
        (t.hidden.map (·.mac)).filter (· ≠ new) ++ [new] := by
      simp only [Tables.replaceHidden, List.map_append, List.filter_map]
      rfl
    rw [hkeys]
    refine hrest.append (List.nodup_singleton new) ?_
    simp [List.disjoint_singleton]
  references := h.references

/-- The row of a device may get a MAC without a row exactly if no job refers to the old one. -/
theorem updateDevice_iff (h : t.Sound) (hne : old ≠ new) (hnew : new ∉ t.macs) :
    (t.updateDevice new now old).Sound ↔ ¬ t.HasJob old := by
  constructor
  · rintro hsound hjob
    obtain ⟨job, hmem, hmac⟩ := List.mem_map.mp hjob
    have href := hsound.references job hmem
    rw [macs_updateDevice, hmac] at href
    exact notMem_map_rename hne href
  · intro hjob
    refine { devices := ?_, ids := h.ids, hidden := h.hidden, references := fun job hmem => ?_ }
    · rw [macs_updateDevice]
      refine h.devices.map_on fun a ha b hb heq => ?_
      split_ifs at heq with hao hbo hbo
      · rw [hao, hbo]
      · exact absurd (heq ▸ hb) hnew
      · exact absurd (heq ▸ ha) hnew
      · exact heq
    · rw [macs_updateDevice]
      have hmac : job.mac ≠ old := fun heq => hjob (heq ▸ List.mem_map_of_mem hmem)
      exact List.mem_map.mpr ⟨job.mac, h.references job hmem, if_neg hmac⟩

end Sound

end Tables

/-! ## The two branches -/

/-- A device that is there takes over the jobs; the mark is dropped. -/
theorem renameRows_of_mem (hne : old ≠ new) (hnew : new ∈ db.1.macs) :
    ∃ db' : Database, renameRows now old new db = .ok db' ∧
      db'.1 = ((db.1.updateJobs new old).deleteDevice old).deleteHidden old := by
  have hjobs : (db.1.updateJobs new old).Sound := db.2.updateJobs hnew
  have hdevice : ((db.1.updateJobs new old).deleteDevice old).Sound := by
    refine hjobs.deleteDevice ?_
    rw [Tables.HasJob, Tables.jobs_updateJobs]
    exact Tables.notMem_map_rename hne
  have hany : db.1.devices.any (·.mac = new) = true := by
    simpa [Tables.macs] using hnew
  refine ⟨⟨_, hdevice.deleteHidden⟩, ?_, rfl⟩
  rw [renameRows, if_pos hany, execute, Checked.execute_ok hjobs]
  simp only [Except.bind, bind]
  rw [execute, Checked.execute_ok hdevice]
  exact Checked.execute_ok hdevice.deleteHidden

/-- A device that is moved with a job: the first statement fails. -/
theorem renameRows_of_job (hne : old ≠ new) (hnew : new ∉ db.1.macs) (hjob : db.1.HasJob old) :
    renameRows now old new db = .error .integrityError := by
  have hany : ¬ db.1.devices.any (·.mac = new) = true := by
    simpa [Tables.macs] using hnew
  have hsound : ¬ (db.1.updateDevice new now old).Sound := fun h =>
    (db.2.updateDevice_iff hne hnew).mp h hjob
  rw [renameRows, if_neg hany, execute, Checked.execute_error hsound]
  rfl

/-- The mark, if there is one. -/
def Tables.moveMark (t : Tables) (old new : Text) : Tables :=
  match t.hidden.find? (·.mac = old) with
  | none => t
  | some row => (t.replaceHidden new row.hiddenAt).deleteHidden old

/-- A device that is moved without a job takes the mark along. -/
theorem renameRows_of_notMem (hne : old ≠ new) (hold : old ∈ db.1.macs) (hnew : new ∉ db.1.macs)
    (hjob : ¬ db.1.HasJob old) :
    ∃ db' : Database, renameRows now old new db = .ok db' ∧
      db'.1 = ((db.1.updateDevice new now old).updateJobs new old).moveMark old new := by
  have hany : ¬ db.1.devices.any (·.mac = new) = true := by
    simpa [Tables.macs] using hnew
  have hdevice : (db.1.updateDevice new now old).Sound := (db.2.updateDevice_iff hne hnew).mpr hjob
  have hjobs : ((db.1.updateDevice new now old).updateJobs new old).Sound := by
    refine hdevice.updateJobs ?_
    rw [Tables.macs_updateDevice]
    exact List.mem_map.mpr ⟨old, hold, if_pos rfl⟩
  rw [renameRows, if_neg hany, execute, Checked.execute_ok hdevice]
  simp only [Except.bind, bind]
  rw [execute, Checked.execute_ok hjobs]
  simp only [Tables.moveMark]
  split
  · exact ⟨_, rfl, rfl⟩
  next row _ =>
    have hmark : (((db.1.updateDevice new now old).updateJobs new old).replaceHidden new row.hiddenAt).Sound :=
      hjobs.replaceHidden row.hiddenAt
    refine ⟨⟨_, hmark.deleteHidden⟩, ?_, rfl⟩
    rw [execute, Checked.execute_ok hmark]
    exact Checked.execute_ok hmark.deleteHidden

/-! ## The rename -/

namespace Tables

/-- Where the jobs have been moved, none of the old MAC is left and none has been lost. -/
theorem mem_jobs_updateJobs {job : Job} (hjob : job ∈ t.jobs) (hmac : job.mac = old ∨ job.mac = new) :
    { job with mac := new } ∈ (t.updateJobs new old).jobs := by
  refine List.mem_map.mpr ⟨job, hjob, ?_⟩
  split
  · rfl
  next hother => rw [← hmac.resolve_left hother]

/-- Into a device that is there: everything but the mark. -/
theorem renamed_merge_iff (hne : old ≠ new) (hnew : new ∈ t.macs) :
    t.Renamed old new (((t.updateJobs new old).deleteDevice old).deleteHidden old) ↔
      (t.IsHidden old → t.IsHidden new) := by
  have hmark : (((t.updateJobs new old).deleteDevice old).deleteHidden old).IsHidden new ↔
      t.IsHidden new := by
    rw [IsHidden, hidden_deleteHidden, List.mem_filter]
    exact and_iff_left (by simpa using hne.symm)
  refine ⟨fun h => hmark.mp ∘ h.hidden, fun h => ?_⟩
  have hmacs : (((t.updateJobs new old).deleteDevice old).deleteHidden old).macs =
      t.macs.filter (· ≠ old) := macs_deleteDevice
  refine { devices := ?_, noJob := ?_, noMark := ?_, jobs := fun job => mem_jobs_updateJobs,
           device := ?_, hidden := hmark.mpr ∘ h }
  · rw [hmacs]
    simp
  · change old ∉ (t.updateJobs new old).jobs.map (·.mac)
    rw [jobs_updateJobs]
    exact notMem_map_rename hne
  · rw [IsHidden, hidden_deleteHidden]
    simp
  · rw [hmacs, List.mem_filter]
    exact ⟨hnew, by simpa using hne.symm⟩

/-- The mark is with the new MAC only, if it was there. -/
theorem isHidden_moveMark (hne : old ≠ new) :
    ¬ (t.moveMark old new).IsHidden old ∧ (t.IsHidden old → (t.moveMark old new).IsHidden new) := by
  unfold moveMark
  split
  next hnone =>
    have hno : ¬ t.IsHidden old := by
      intro hmem
      obtain ⟨row, hrow, hmac⟩ := List.mem_map.mp hmem
      simpa [hmac] using List.find?_eq_none.mp hnone row hrow
    exact ⟨hno, fun h => absurd h hno⟩
  next row _ =>
    constructor
    · rw [IsHidden, hidden_deleteHidden]
      simp
    · intro _
      rw [IsHidden, hidden_deleteHidden, List.mem_filter]
      exact ⟨by simp [replaceHidden], by simpa using hne.symm⟩

/-- The mark is no row of a device. -/
@[simp] theorem macs_moveMark : (t.moveMark old new).macs = t.macs := by
  unfold moveMark
  split <;> rfl

@[simp] theorem jobs_moveMark : (t.moveMark old new).jobs = t.jobs := by
  unfold moveMark
  split <;> rfl

/-- A device of its own: everything. -/
theorem renamed_move (hne : old ≠ new) (hold : old ∈ t.macs) :
    t.Renamed old new (((t.updateDevice new now old).updateJobs new old).moveMark old new) := by
  obtain ⟨hgone, hkept⟩ := isHidden_moveMark (t := (t.updateDevice new now old).updateJobs new old) hne
  have hmacs : ((t.updateDevice new now old).updateJobs new old).macs =
      t.macs.map fun mac => if mac = old then new else mac := macs_updateDevice
  refine { devices := ?_, noJob := ?_, noMark := hgone, jobs := ?_, device := ?_, hidden := hkept }
  · rw [macs_moveMark, hmacs]
    exact notMem_map_rename hne
  · rw [HasJob, jobs_moveMark, jobs_updateJobs]
    exact notMem_map_rename hne
  · intro job hjob hmac
    rw [jobs_moveMark]
    exact mem_jobs_updateJobs (t := t.updateDevice new now old) hjob hmac
  · rw [macs_moveMark, hmacs]
    exact List.mem_map.mpr ⟨old, hold, if_pos rfl⟩

end Tables

/-- The rename of a row, as a whole. -/
theorem renames_transaction_iff (hne : old ≠ new) (hold : old ∈ db.1.macs) :
    Renames old new db (Checked.transaction (renameRows now old new) db) ↔ db.1.Movable old new := by
  by_cases hnew : new ∈ db.1.macs
  · obtain ⟨db', (hrows : renameRows now old new db = _), hdb'⟩ := renameRows_of_mem hne hnew
    rw [Checked.transaction_ok hrows, Renames, hdb', Tables.Movable, if_pos hnew,
      ← Tables.renamed_merge_iff hne hnew]
    exact and_iff_right rfl
  · rw [Tables.Movable, if_neg hnew]
    by_cases hjob : db.1.HasJob old
    · rw [Checked.transaction_error (renameRows_of_job hne hnew hjob)]
      exact iff_of_false (fun h => nomatch h.1) (not_not_intro hjob)
    · obtain ⟨db', (hrows : renameRows now old new db = _), hdb'⟩ := renameRows_of_notMem hne hold hnew hjob
      rw [Checked.transaction_ok hrows]
      exact iff_of_true ⟨rfl, hdb' ▸ Tables.renamed_move hne hold⟩ hjob

section

variable {stripUpper : Text → Text} {oldMac newMac : Text}

/-- Two MACs, and a row for the old one: `rename_device_mac` comes to its transaction. -/
theorem renameDeviceMac_eq (hold : IsMac oldMac) (hnew : IsMac newMac)
    (hne : normalizeMac stripUpper oldMac ≠ normalizeMac stripUpper newMac)
    (hrow : normalizeMac stripUpper oldMac ∈ db.1.macs) :
    renameDeviceMac stripUpper now oldMac newMac db = Checked.transaction
      (renameRows now (normalizeMac stripUpper oldMac) (normalizeMac stripUpper newMac)) db := by
  have hany : db.1.devices.any (·.mac = normalizeMac stripUpper oldMac) = true := by
    simpa [Tables.macs] using hrow
  have hcheck : ((normalizeMac stripUpper oldMac).isEmpty || (normalizeMac stripUpper newMac).isEmpty ||
      decide (normalizeMac stripUpper oldMac = normalizeMac stripUpper newMac)) = false := by
    simp [normalizeMac_ne_nil stripUpper hold, normalizeMac_ne_nil stripUpper hnew, hne]
  simp only [renameDeviceMac, hcheck, Bool.false_eq_true, if_false, hany, if_true]

/-- The renames that do what they are to do: everything of the old MAC is under the new one, if and
only if the rows can be moved.  Where the new MAC has a row, the mark of a hidden device must not be
lost with the old one; where it has none, the foreign key of `ota_jobs` lets no job stay on the old
MAC. -/
theorem renames_iff (hold : IsMac oldMac) (hnew : IsMac newMac)
    (hne : normalizeMac stripUpper oldMac ≠ normalizeMac stripUpper newMac)
    (hrow : normalizeMac stripUpper oldMac ∈ db.1.macs) :
    Renames (normalizeMac stripUpper oldMac) (normalizeMac stripUpper newMac) db
        (renameDeviceMac stripUpper now oldMac newMac db) ↔
      db.1.Movable (normalizeMac stripUpper oldMac) (normalizeMac stripUpper newMac) := by
  rw [renameDeviceMac_eq hold hnew hne hrow]
  exact renames_transaction_iff hne hrow

end

/-- `PLACEHOLDER_MAC` and a bridge's own MAC, without the colons. -/
def placeholderMac : Text := List.replicate 12 'F'

def bridgeMac : Text := List.replicate 12 'A'

/-- A hidden device without jobs. -/
def hiddenAlone : Database :=
  ⟨{ devices := [⟨normalizeMac id placeholderMac, 0⟩], jobs := [], hidden := [⟨normalizeMac id placeholderMac, 0⟩] },
    by decide⟩

/-- A hidden device with two jobs, and a hidden one with a job. -/
def bothHidden : Database :=
  ⟨{ devices := [⟨normalizeMac id placeholderMac, 0⟩, ⟨normalizeMac id bridgeMac, 0⟩],
     jobs := [⟨1, normalizeMac id placeholderMac⟩, ⟨2, normalizeMac id bridgeMac⟩, ⟨3, normalizeMac id placeholderMac⟩],
     hidden := [⟨normalizeMac id placeholderMac, 0⟩, ⟨normalizeMac id bridgeMac, 0⟩] }, by decide⟩

/-- A device with a job. -/
def flashed : Database :=
  ⟨{ devices := [⟨normalizeMac id placeholderMac, 0⟩], jobs := [⟨1, normalizeMac id placeholderMac⟩],
     hidden := [] }, by decide⟩

/-- A hidden device, and one that is not. -/
def halfHidden : Database :=
  ⟨{ devices := [⟨normalizeMac id placeholderMac, 0⟩, ⟨normalizeMac id bridgeMac, 0⟩], jobs := [],
     hidden := [⟨normalizeMac id placeholderMac, 0⟩] }, by decide⟩

/-- A hidden device is renamed to a MAC without a row, and another one to a MAC that is hidden as
well. -/
theorem renames_hidden :
    Renames (normalizeMac id placeholderMac) (normalizeMac id bridgeMac) hiddenAlone
        (renameDeviceMac id 1 placeholderMac bridgeMac hiddenAlone) ∧
      Renames (normalizeMac id placeholderMac) (normalizeMac id bridgeMac) bothHidden
        (renameDeviceMac id 1 placeholderMac bridgeMac bothHidden) :=
  ⟨(renames_iff (by decide) (by decide) (by decide) (by decide)).mpr (by decide),
    (renames_iff (by decide) (by decide) (by decide) (by decide)).mpr (by decide)⟩

/-- A device with a job is not renamed, and the mark of a hidden one is lost. -/
theorem not_renames : IsMac placeholderMac ∧ IsMac bridgeMac ∧
    normalizeMac id placeholderMac ≠ normalizeMac id bridgeMac ∧
    ∀ db ∈ [flashed, halfHidden], normalizeMac id placeholderMac ∈ db.1.macs ∧
      ¬ Renames (normalizeMac id placeholderMac) (normalizeMac id bridgeMac) db
        (renameDeviceMac id 1 placeholderMac bridgeMac db) := by
  have hne : normalizeMac id placeholderMac ≠ normalizeMac id bridgeMac := by decide
  have hfails : ∀ db : Database, normalizeMac id placeholderMac ∈ db.1.macs →
      ¬ db.1.Movable (normalizeMac id placeholderMac) (normalizeMac id bridgeMac) →
      ¬ Renames (normalizeMac id placeholderMac) (normalizeMac id bridgeMac) db
        (renameDeviceMac id 1 placeholderMac bridgeMac db) := by
    intro db hrow hmovable
    rw [renameDeviceMac_eq (by decide) (by decide) hne hrow, renames_transaction_iff hne hrow]
    exact hmovable
  refine ⟨by decide, by decide, hne, fun db hdb => ?_⟩
  rcases List.mem_pair.mp hdb with rfl | rfl
  · exact ⟨by decide, hfails flashed (by decide) (by decide)⟩
  · exact ⟨by decide, hfails halfHidden (by decide) (by decide)⟩

end EspTree.AddOn.Rename
