import EspTree.AddOn.Restart

/-!
# Initialisation, interrupted and started again

`recovers_iff`: whether the next start of an interrupted `init` makes up for it.

`Recovers` says that the next start, after an interruption at some point, ends with a store that an
uninterrupted start could have made; only the clock and what `uuid4` returns may have been others.

The points fall into three kinds.  Outside of the migrations 11, 15 and 18 every statement is soft,
and to run the same statements again comes to the same (`init_soft`).  Within migration 15 or 18 a
column may be there already, and then the bare `ALTER` fails, at this start and at every later one
(`init_eq_none`, `recovers_partial`).  Within migration 11 the table may have been dropped and not
all rows put back; the old rows are in memory only, so the next start finds a table in the new form
and has nothing to rebuild from (`init_rebuild`, `recovers_inside`).

`recovers_iff` puts the three together, for every database of the app and every point of
interruption.
-/

namespace EspTree.AddOn.Schema

/-! ## All migrations -/

/-- The migration that rebuilds the bridges. -/
theorem migration_eleven {m : Migration} (hm : m ∈ migrations) (h : m.version = 11) :
    m = ⟨11, migration011UuidBridgeTable⟩ := by
  simp only [migrations, List.mem_cons, List.not_mem_nil, or_false] at hm
  rcases hm with rfl | rfl | rfl | rfl | rfl | rfl | rfl | rfl | rfl | rfl | rfl | rfl | rfl | rfl | rfl |
    rfl <;> first | rfl | cases h

/-- The migration of one bare `ALTER`. -/
theorem migration_fifteen {m : Migration} (hm : m ∈ migrations) (h : m.version = 15) :
    m = ⟨15, fun _ _ => [.addColumn "ota_jobs" ⟨"auto_flash", "INTEGER DEFAULT 0", .int 0⟩]⟩ := by
  simp only [migrations, List.mem_cons, List.not_mem_nil, or_false] at hm
  rcases hm with rfl | rfl | rfl | rfl | rfl | rfl | rfl | rfl | rfl | rfl | rfl | rfl | rfl | rfl | rfl |
    rfl <;> first | rfl | cases h

/-- The migration of three of them. -/
theorem migration_eighteen {m : Migration} (hm : m ∈ migrations) (h : m.version = 18) :
    m = ⟨18, fun _ _ => [.addColumn "bridges" ⟨"transport", "TEXT DEFAULT 'wifi'", .text "wifi"⟩,
      .addColumn "bridges" ⟨"serial_port", "TEXT DEFAULT ''", .text ""⟩,
      .addColumn "bridges" ⟨"baud", "INTEGER DEFAULT 460800", .int 460800⟩]⟩ := by
  simp only [migrations, List.mem_cons, List.not_mem_nil, or_false] at hm
  rcases hm with rfl | rfl | rfl | rfl | rfl | rfl | rfl | rfl | rfl | rfl | rfl | rfl | rfl | rfl | rfl |
    rfl <;> first | rfl | cases h

/-- Only migration 11 looks at rows, at the clock or at `uuid4`. -/
theorem commands_congr {m : Migration} (hm : m ∈ migrations) (h11 : m.version ≠ 11) (env env' : Env)
    {a b : Store} (h : Command.SameSchema a b) : m.commands env a = m.commands env' b := by
  have hnames : b.bridges.names = a.bridges.names := by
    rw [Store.bridges, Store.bridges]
    rcases h.table "bridges" with ⟨ha, hb⟩ | ⟨t, u, ha, hb, heq⟩
    · rw [ha, hb]
    · rw [ha, hb]
      simp [Table.names, heq]
  simp only [migrations, List.mem_cons, List.not_mem_nil, or_false] at hm
  rcases hm with rfl | rfl | rfl | rfl | rfl | rfl | rfl | rfl | rfl | rfl | rfl | rfl | rfl | rfl | rfl |
    rfl
  case inr.inr.inr.inr.inr.inr.inr.inr.inr.inl => exact absurd rfl h11
  case inr.inr.inr.inr.inr.inr.inr.inr.inr.inr.inl => simp [migration013AddHostname, hnames]
  all_goals rfl

/-- The bridges that are carried over are as many after a migration. -/
theorem migration_carried {m : Migration} (hm : m ∈ migrations) {env : Env} {db db' : Store}
    (h : Command.runAll (m.commands env db) db = some db') :
    db'.bridges.carried.length = db.bridges.carried.length := by
  by_cases h11 : m.version = 11
  · rw [migration_eleven hm h11] at h
    have h : Command.runAll (migration011UuidBridgeTable env db) db = some db' := h
    by_cases huuid : db.bridges.isUuid = true
    · rw [migration011UuidBridgeTable, if_pos huuid] at h
      exact Command.runAll_carried (by simp [Command.isPlain]) h
    · rw [run_rebuild env (by simpa using huuid)] at h
      split_ifs at h
      cases h
      have hall := carried_rebuilt env db (db.newRows env).length
      rw [List.take_length] at hall
      rw [Store.bridges_rebuilt, hall, Store.newRows, List.length_mapIdx]
  · by_cases h15 : m.version = 15
    · rw [migration_fifteen hm h15] at h
      exact Command.runAll_carried (by simp [Command.isPlain]) h
    · by_cases h18 : m.version = 18
      · rw [migration_eighteen hm h18] at h
        exact Command.runAll_carried (by simp [Command.isPlain]) h
      · obtain ⟨l, hl⟩ := softMigration hm h11 h15 h18
        rw [hl.run] at h
        exact Command.runAll_carried hl.plain h

/-- Migrations that run to their end keep the number of bridges. -/
theorem runMigrations_carried {env : Env} {ms : List Migration} (hms : ∀ m ∈ ms, m ∈ migrations)
    {db final : Store} (h : runMigrations env ms db = some final) :
    final.bridges.carried.length = db.bridges.carried.length := by
  induction ms generalizing db with
  | nil =>
    cases h
    rfl
  | cons m ms ih =>
    obtain ⟨db', hdb', hrest⟩ := Option.bind_eq_some_iff.1 h
    rw [ih (fun m hm => hms m (List.mem_cons_of_mem _ hm)) hrest,
      ← migration_carried (hms m List.mem_cons_self) hdb']
    rfl

theorem pending_subset (db : Store) : ∀ m ∈ db.pending, m ∈ migrations :=
  fun _ hm => (List.mem_filter.1 hm).1

/-- So does a start that is not interrupted. -/
theorem init_carried {env : Env} {db final : Store} (h : init env db = some final) :
    final.bridges.carried.length = db.bridges.carried.length := by
  obtain ⟨db', hdb', hrest⟩ := Option.bind_eq_some_iff.1 h
  rw [runMigrations_carried (pending_subset db') hrest,
    Command.runAll_carried script_isPlain hdb']

/-- Without migration 11 only the schema matters. -/
theorem runMigrations_sameSchema {ms : List Migration} (hms : ∀ m ∈ ms, m ∈ migrations)
    (h11 : ∀ m ∈ ms, m.version ≠ 11) (env env' : Env) {a b final : Store}
    (h : Command.SameSchema a b) (hrun : runMigrations env ms a = some final) :
    ∃ final', runMigrations env' ms b = some final' := by
  induction ms generalizing a b with
  | nil => exact ⟨b, rfl⟩
  | cons m ms ih =>
    obtain ⟨a', ha', hrest⟩ := Option.bind_eq_some_iff.1 hrun
    have hcommands := commands_congr (hms m List.mem_cons_self) (h11 m List.mem_cons_self) env env' h
    obtain ⟨b', hb', hsame⟩ :=
      h.runAll (List.forall₂_same.2 fun c _ => Command.Alike.refl c) ha'
    obtain ⟨final', hfinal'⟩ := ih (fun m hm => hms m (List.mem_cons_of_mem _ hm))
      (fun m hm => h11 m (List.mem_cons_of_mem _ hm)) (hsame.setVersion m.version) hrest
    exact ⟨final', by rw [runMigrations, ← hcommands, hb', Option.bind_some, hfinal']⟩

/-- Without migration 11 the result does not depend on the clock and on `uuid4`. -/
theorem runMigrations_env {ms : List Migration} (hms : ∀ m ∈ ms, m ∈ migrations)
    (h11 : ∀ m ∈ ms, m.version ≠ 11) (env env' : Env) (db : Store) :
    runMigrations env ms db = runMigrations env' ms db := by
  induction ms generalizing db with
  | nil => rfl
  | cons m ms ih =>
    rw [runMigrations, runMigrations, commands_congr (hms m List.mem_cons_self)
      (h11 m List.mem_cons_self) env env' (.refl db)]
    congr 1
    funext db'
    exact ih (fun m hm => hms m (List.mem_cons_of_mem _ hm))
      (fun m hm => h11 m (List.mem_cons_of_mem _ hm)) _

theorem not_eleven_of_sorted {m : Migration} {rest : List Migration}
    (h : (m :: rest).Sublist migrations) (hm : m.version = 11) : ∀ m' ∈ rest, m'.version ≠ 11 := by
  have hsorted := migrations_sorted.sublist h
  intro m' hm' heq
  have hlt := (List.pairwise_cons.1 hsorted).1 m' hm'
  omega

/-- Whether `init` runs through does not depend on the clock and on `uuid4`. -/
theorem runMigrations_success {ms : List Migration} (hms : ms.Sublist migrations) (env env' : Env)
    {db final : Store} (h : runMigrations env ms db = some final) :
    ∃ final', runMigrations env' ms db = some final' := by
  induction ms generalizing db with
  | nil => exact ⟨db, rfl⟩
  | cons m ms ih =>
    obtain ⟨db', hdb', hrest⟩ := Option.bind_eq_some_iff.1 h
    have hm : m ∈ migrations := hms.subset List.mem_cons_self
    by_cases h11 : m.version = 11
    · have hnot := not_eleven_of_sorted hms h11
      have hsub : ∀ m' ∈ ms, m' ∈ migrations := fun m' hm' => hms.subset (List.mem_cons_of_mem _ hm')
      have hcommands := migration_eleven hm h11
      rw [hcommands] at hdb'
      by_cases huuid : db.bridges.isUuid = true
      · refine ⟨final, ?_⟩
        have hsame : Command.runAll (m.commands env' db) db = some db' := by
          rw [hcommands, ← hdb']
          simp [migration011UuidBridgeTable, huuid]
        rw [runMigrations, hsame, Option.bind_some, ← runMigrations_env hsub hnot env env']
        exact hrest
      · rw [run_rebuild env (by simpa using huuid)] at hdb'
        split_ifs at hdb' with hok
        cases hdb'
        have hsame : Command.runAll (m.commands env' db) db = some (db.rebuilt (db.newRows env')) := by
          rw [hcommands]
          exact (run_rebuild env' (by simpa using huuid)).trans (if_pos hok)
        obtain ⟨final', hfinal'⟩ := runMigrations_sameSchema hsub hnot env env'
          ((sameSchema_rebuilt db (db.newRows env) (db.newRows env')).setVersion m.version) hrest
        exact ⟨final', by rw [runMigrations, hsame, Option.bind_some, hfinal']⟩
    · obtain ⟨final', hfinal'⟩ := ih ((List.sublist_cons_self _ _).trans hms) hrest
      refine ⟨final', ?_⟩
      rw [runMigrations, ← commands_congr hm h11 env env' (.refl db), hdb', Option.bind_some, hfinal']

/-! ## What a migration keeps -/

namespace Command

variable {c : Command} {db db' : Store}

/-- A new column takes nothing away. -/
theorem runAddColumn_keeps {table : String} {column : Column}
    (h : runAddColumn table column db = some db') :
    (db'.versions = db.versions ∧ db'.indexes = db.indexes) ∧
      (∀ name, (db.tables name).isSome = true → (db'.tables name).isSome = true) ∧
      ∀ name other, db.hasColumn name other = true → db'.hasColumn name other = true := by
  have hsoft : (addColumnIfNotExists table column).run db = some db' := by
    rw [run, h, Option.getD_some]
  obtain ⟨-, htables, -, hcolumns⟩ := soft_mono (rfl) hsoft
  refine ⟨?_, htables, hcolumns⟩
  unfold runAddColumn at h
  split at h
  · cases h
  · split_ifs at h
    cases h
    exact ⟨rfl, rfl⟩

theorem runAll_addColumn_keeps {l : List Command}
    (hl : ∀ c ∈ l, ∃ table column, c = .addColumn table column) (h : runAll l db = some db') :
    (db'.versions = db.versions ∧ db'.indexes = db.indexes) ∧
      (∀ name, (db.tables name).isSome = true → (db'.tables name).isSome = true) ∧
      ∀ name other, db.hasColumn name other = true → db'.hasColumn name other = true := by
  induction l generalizing db with
  | nil =>
    cases h
    exact ⟨⟨rfl, rfl⟩, fun _ hn => hn, fun _ _ hn => hn⟩
  | cons c l ih =>
    obtain ⟨mid, hmid, hrest⟩ := Option.bind_eq_some_iff.1 h
    obtain ⟨table, column, rfl⟩ := hl c List.mem_cons_self
    obtain ⟨⟨hversions, hindexes⟩, htables, hcolumns⟩ := runAddColumn_keeps hmid
    obtain ⟨⟨hversions', hindexes'⟩, htables', hcolumns'⟩ :=
      ih (fun c hc => hl c (List.mem_cons_of_mem _ hc)) hrest
    exact ⟨⟨hversions'.trans hversions, hindexes'.trans hindexes⟩, fun name hn => htables' name (htables name hn),
      fun name other hn => hcolumns' name other (hcolumns name other hn)⟩

/-- Soft statements keep every column. -/
theorem runAll_hasColumn {l : List Command} (hs : ∀ c ∈ l, c.isSoft = true)
    (h : runAll l db = some db') {table column : String} (hc : db.hasColumn table column = true) :
    db'.hasColumn table column = true := by
  induction l generalizing db with
  | nil =>
    cases h
    exact hc
  | cons c l ih =>
    obtain ⟨mid, hmid, hrest⟩ := Option.bind_eq_some_iff.1 h
    exact ih (fun c hc => hs c (List.mem_cons_of_mem _ hc)) hrest
      ((soft_mono (hs c List.mem_cons_self) hmid).2.2.2 _ _ hc)

/-- An index that a soft statement makes is new. -/
theorem run_indexes (hs : c.isSoft = true) (h : c.run db = some db') :
    db'.indexes = db.indexes ∨ ∃ name index, c = .createIndex name index ∧
      db'.indexes = Function.update db.indexes name (some index) := by
  cases c with
  | createVersions =>
    cases h
    exact .inl rfl
  | createTable name columns =>
    cases h
    unfold runCreateTable
    split_ifs <;> exact .inl rfl
  | createIndex name index =>
    rw [run] at h
    split_ifs at h
    · cases h
      exact .inl rfl
    · cases h
      exact .inr ⟨name, index, rfl, rfl⟩
  | addColumnIfNotExists table column =>
    cases h
    cases hrun : runAddColumn table column db with
    | none => exact .inl rfl
    | some added => exact .inl (runAddColumn_keeps hrun).1.2
  | addColumn | dropTable | insertBridge | raise => cases hs

theorem runAll_ofApp {l : List Command} (hs : ∀ c ∈ l, c.isSoft = true)
    (hi : ∀ c ∈ l, c.IndexOfApp) (h : runAll l db = some db') (happ : db.OfApp) : db'.OfApp := by
  induction l generalizing db with
  | nil =>
    cases h
    exact happ
  | cons c l ih =>
    obtain ⟨mid, hmid, hrest⟩ := Option.bind_eq_some_iff.1 h
    refine ih (fun c hc => hs c (List.mem_cons_of_mem _ hc))
      (fun c hc => hi c (List.mem_cons_of_mem _ hc)) hrest ?_
    rcases run_indexes (hs c List.mem_cons_self) hmid with hsame | ⟨name, index, rfl, hnew⟩
    · intro name index hmem index' hindex'
      exact happ name index hmem index' (hsame ▸ hindex')
    · intro other index' hmem index'' hindex''
      rw [hnew] at hindex''
      by_cases hother : other = name
      · subst hother
        rw [Function.update_self, Option.some.injEq] at hindex''
        rw [← hindex'']
        exact (hi _ List.mem_cons_self index' hmem).symm
      · rw [Function.update_of_ne hother] at hindex''
        exact happ other index' hmem index'' hindex''

end Command

theorem script_ofApp : ∀ c ∈ script, c.IndexOfApp := by simp [script, Command.IndexOfApp]

/-- What the script leaves behind, object by object. -/
theorem scriptDone_iff {db : Store} : ScriptDone db ↔ db.versions.isSome = true ∧
    (db.tables "devices").isSome = true ∧ (db.tables "ota_jobs").isSome = true ∧
    (db.indexes "idx_ota_jobs_mac_created").isSome = true ∧
    (db.indexes "idx_ota_jobs_status").isSome = true ∧ (db.tables "bridges").isSome = true := by
  simp [ScriptDone, script, Command.Done]

/-- An index of the script is not dropped with a table that the script does not have it on. -/
theorem filter_isSome {db : Store} (happ : db.OfApp) {name : String} {index : Index}
    (hmem : .createIndex name index ∈ script) (h : (db.indexes name).isSome = true)
    {p : Index → Bool} (hp : ∀ index', index'.table = index.table → p index' = true) :
    ((db.indexes name).filter p).isSome = true := by
  obtain ⟨index', hindex'⟩ := Option.isSome_iff_exists.1 h
  rw [hindex', Option.filter_some, if_pos (hp index' (happ name index hmem index' hindex'))]
  rfl

theorem dropConfig_keeps {db db' : Store} (h : (Command.dropTable "bridge_config").run db = some db')
    (hdone : ScriptDone db) (happ : db.OfApp) :
    ScriptDone db' ∧ db'.OfApp ∧ db'.bridges = db.bridges := by
  cases h
  refine ⟨?_, fun name index hmem index' hindex' => ?_, ?_⟩
  · obtain ⟨hversions, hdevices, hjobs, hcreated, hstatus, hbridges⟩ := scriptDone_iff.1 hdone
    refine scriptDone_iff.2 ⟨hversions, by simpa [Store.setTable] using hdevices,
      by simpa [Store.setTable] using hjobs, ?_, ?_, by simpa [Store.setTable] using hbridges⟩
    · exact filter_isSome happ (by simp [script]; rfl) hcreated (by simp +contextual)
    · exact filter_isSome happ (by simp [script]; rfl) hstatus (by simp +contextual)
  · exact happ name index hmem index' (Option.eq_some_of_filter_eq_some hindex')
  · simp [Store.bridges, Store.setTable]

/-- The rebuild keeps the objects of the script. -/
theorem rebuilt_keeps {db : Store} (rows : List Row) (hdone : ScriptDone db) (happ : db.OfApp) :
    ScriptDone (db.rebuilt rows) ∧ (db.rebuilt rows).OfApp := by
  refine ⟨?_, fun name index hmem index' hindex' => ?_⟩
  · obtain ⟨hversions, hdevices, hjobs, hcreated, hstatus, -⟩ := scriptDone_iff.1 hdone
    refine scriptDone_iff.2 ⟨hversions, by simpa [Store.rebuilt] using hdevices,
      by simpa [Store.rebuilt] using hjobs, ?_, ?_, by rw [db.rebuilt_tables_bridges]; rfl⟩
    · exact filter_isSome happ (by simp [script]; rfl) hcreated (by simp +contextual)
    · exact filter_isSome happ (by simp [script]; rfl) hstatus (by simp +contextual)
  · exact happ name index hmem index' (Option.eq_some_of_filter_eq_some hindex')

theorem addColumns_keep {l : List Command} (hl : ∀ c ∈ l, ∃ table column, c = .addColumn table column)
    {db db' : Store} (h : Command.runAll l db = some db') (hdone : ScriptDone db) (happ : db.OfApp) :
    ScriptDone db' ∧ db'.OfApp := by
  obtain ⟨⟨hversions, hindexes⟩, htables, -⟩ := Command.runAll_addColumn_keeps hl h
  refine ⟨?_, fun name index hmem index' hindex' => happ name index hmem index' (hindexes ▸ hindex')⟩
  obtain ⟨hv, hdevices, hjobs, hcreated, hstatus, hbridges⟩ := scriptDone_iff.1 hdone
  exact scriptDone_iff.2 ⟨hversions ▸ hv, htables _ hdevices, htables _ hjobs, hindexes ▸ hcreated,
    hindexes ▸ hstatus, htables _ hbridges⟩

/-- A migration keeps what the script made. -/
theorem migration_keeps {m : Migration} (hm : m ∈ migrations) {env : Env} {db db' : Store}
    (h : Command.runAll (m.commands env db) db = some db') (hdone : ScriptDone db) (happ : db.OfApp) :
    ScriptDone db' ∧ db'.OfApp := by
  by_cases h11 : m.version = 11
  · rw [migration_eleven hm h11] at h
    have h : Command.runAll (migration011UuidBridgeTable env db) db = some db' := h
    by_cases huuid : db.bridges.isUuid = true
    · rw [migration011UuidBridgeTable, if_pos huuid] at h
      obtain ⟨mid, hmid, heq⟩ := Option.bind_eq_some_iff.1 h
      cases heq
      have hkeeps := dropConfig_keeps hmid hdone happ
      exact ⟨hkeeps.1, hkeeps.2.1⟩
    · rw [run_rebuild env (by simpa using huuid)] at h
      split_ifs at h
      cases h
      exact rebuilt_keeps _ hdone happ
  · by_cases h15 : m.version = 15
    · rw [migration_fifteen hm h15] at h
      exact addColumns_keep (by simp) h hdone happ
    · by_cases h18 : m.version = 18
      · rw [migration_eighteen hm h18] at h
        exact addColumns_keep (by simp) h hdone happ
      · obtain ⟨l, hl⟩ := softMigration hm h11 h15 h18
        rw [hl.run] at h
        have hkeep := (Command.done_of_runAll hl.soft (hl.ready db hdone) h).2
        exact ⟨fun c hc => hkeep c (hdone c hc), Command.runAll_ofApp hl.soft hl.ofApp h happ⟩

/-! ## The next start -/

/-- Nothing is lost yet, and no bare `ALTER` has been run without its version. -/
structure Safe (db mid : Store) : Prop where
  autoFlash : ¬(mid.version = 14 ∧ mid.hasColumn "ota_jobs" "auto_flash" = true)
  transport : ¬(mid.version = 17 ∧ mid.hasColumn "bridges" "transport" = true)
  bridges : mid.bridges.carried.length = db.bridges.carried.length

/-- The next run of `init` completes, with what an uninterrupted run would have made. -/
def Recovers (env : Env) (db mid : Store) : Prop :=
  ∃ env' final, init env mid = some final ∧ init env' db = some final

/-- A bare `ALTER` fails the second time. -/
theorem init_eq_none {db : Store} {m : Migration} {rest : List Migration} {table : String}
    {column : Column} {l : List Command}
    (hpending : (∀ db' : Store, db'.versions.getD [] = db.versions.getD [] → db'.pending = m :: rest))
    (hm : ∀ env db, m.commands env db = .addColumn table column :: l)
    (hthere : db.hasColumn table column.name = true) (env : Env) : init env db = none := by
  rw [init, Option.bind_eq_none_iff]
  intro db' hdb'
  have hcolumn := Command.runAll_hasColumn script_isSoft hdb' hthere
  obtain ⟨t, ht, hmem⟩ := (Option.any_eq_true _ _).1 hcolumn
  rw [hpending db' (Command.runAll_versions hdb'), runMigrations, hm, Command.runAll, Command.run,
    Command.runAddColumn, ht]
  simp only
  rw [if_pos (by simpa using hmem)]
  rfl

/-- Where the next start makes up for the interruption, the point was a safe one. -/
theorem safe_of_recovers {env : Env} {db mid : Store} (h : Recovers env db mid) : Safe db mid := by
  obtain ⟨env', final, hmid, hdb⟩ := h
  refine ⟨?_, ?_, (init_carried hmid).symm.trans (init_carried hdb)⟩
  · rintro ⟨hversion, hcolumn⟩
    have hpending (db' : Store) (hv : db'.versions.getD [] = mid.versions.getD []) :
        db'.pending = migrations.drop 12 := by
      rw [Store.pending, Store.version_congr hv, hversion]
      rfl
    have hnone := init_eq_none hpending (fun _ _ => rfl) hcolumn env
    rw [hnone] at hmid
    cases hmid
  · rintro ⟨hversion, hcolumn⟩
    have hpending (db' : Store) (hv : db'.versions.getD [] = mid.versions.getD []) :
        db'.pending = migrations.drop 15 := by
      rw [Store.pending, Store.version_congr hv, hversion]
      rfl
    have hnone := init_eq_none hpending (fun _ _ => rfl) hcolumn env
    rw [hnone] at hmid
    cases hmid

/-- Soft statements that were interrupted have no effect on the next start. -/
theorem init_soft {env env' : Env} {m : Migration} {rest : List Migration} {l : List Command}
    {db mid : Store} {n : Nat} (hl : SoftMigration m l) (hdone : ScriptDone db)
    (hpending : db.pending = m :: rest)
    (hmid : Command.runAll ((m.commands env db).take n) db = some mid) :
    init env' mid = runMigrations env' (m :: rest) db := by
  obtain ⟨k, hk⟩ := hl.interrupted env db mid n hmid
  have hmem : ∀ c ∈ l.take k, c ∈ l := fun c hc => List.mem_of_mem_take hc
  have hkeep := (Command.done_of_runAll (fun c hc => hl.soft c (hmem c hc))
    (fun c hc => hl.ready db hdone c (hmem c hc)) hk).2
  have hdone' : ScriptDone mid := fun c hc => hkeep c (hdone c hc)
  rw [init_of_scriptDone hdone', Store.pending_congr (Command.runAll_versions hk), hpending,
    runMigrations, runMigrations, hl.run, hl.run,
    Command.rerun_soft hl.soft (hl.ready db hdone) hk]

/-- After a bare `ALTER` the column is there, so that the same statement fails when it is run again.
-/
theorem hasColumn_of_bare {l : List Command} {table : String} {column : Column} {db mid : Store}
    (hl : ∀ c ∈ l, ∃ table column, c = .addColumn table column)
    (h : Command.runAll (.addColumn table column :: l) db = some mid) :
    mid.hasColumn table column.name = true := by
  obtain ⟨added, hadded, hrest⟩ := Option.bind_eq_some_iff.1 h
  refine (Command.runAll_addColumn_keeps hl hrest).2.2 _ _ ?_
  rw [Command.run, Command.runAddColumn] at hadded
  split at hadded
  · cases hadded
  · split_ifs at hadded
    cases hadded
    simp [Store.hasColumn, Store.setTable, Table.addColumn, Table.names]

/-- The version before the next migration. -/
theorem version_of_next {db : Store} {m n : Migration} {rest : List Migration}
    (h : db.pending = m :: rest) (hn : n ∈ migrations) (hnm : n.version + 1 = m.version) :
    db.version = n.version := by
  have hlt := (version_lt_of_pending h).2
  by_contra hne
  have hle := next_version h hn (by omega)
  omega

/-- In the middle of the rebuild, the script makes the table. -/
theorem Rebuilding.script {db mid : Store} {rows : List Row} (h : Rebuilding db rows mid)
    (hdone : ScriptDone db) (happ : db.OfApp) : Command.runAll Schema.script mid =
      some (Command.runCreateTable "bridges" bridgesColumns mid) := by
  obtain ⟨hversions, hdevices, hjobs, hcreated, hstatus, -⟩ := scriptDone_iff.1 hdone
  have hindex {name : String} {index : Index} (hmem : .createIndex name index ∈ Schema.script)
      (htable : index.table = "ota_jobs") (hsome : (db.indexes name).isSome = true) :
      (mid.indexes name).isSome = true := by
    obtain ⟨index', hindex'⟩ := Option.isSome_iff_exists.1 hsome
    have hjobs := (happ name index hmem index' hindex').trans htable
    rw [h.indexes name index' hindex' (by simp [hjobs]) (by simp [hjobs])]
    rfl
  have hsplit : Schema.script =
      Schema.script.dropLast ++ [.createTable "bridges" bridgesColumns] := rfl
  rw [hsplit, Command.runAll_append, Command.runAll_of_done, Option.bind_some]
  · rfl
  · simp only [Schema.script, List.dropLast, List.mem_cons, List.not_mem_nil, or_false, forall_eq_or_imp,
      forall_eq]
    refine ⟨?_, ?_, ?_, ?_, ?_⟩
    · rwa [Command.Done, h.versions]
    · rwa [Command.Done, h.tables "devices" (by simp) (by simp)]
    · rwa [Command.Done, h.tables "ota_jobs" (by simp) (by simp)]
    · exact hindex (by simp [Schema.script]; rfl) (rfl) hcreated
    · exact hindex (by simp [Schema.script]; rfl) (rfl) hstatus

/-- The rebuild was interrupted, but all the rows are there again. -/
theorem init_rebuild {env env' : Env} {db mid : Store} {rest : List Migration} {k : Nat}
    (h : Rebuilding db ((db.newRows env).take k) mid) (hdone : ScriptDone db) (happ : db.OfApp)
    (huuid : db.bridges.isUuid = false)
    (hok : (db.bridges.carried.all fun row => (portOf db.bridges row).toInt.isSome) = true)
    (hpending : db.pending = ⟨11, migration011UuidBridgeTable⟩ :: rest)
    (hall : mid.bridges.carried.length = db.bridges.carried.length)
    (hrest : ∀ a, runMigrations env' rest a = runMigrations (env.mix env') rest a) :
    init env' mid = runMigrations (env.mix env') (⟨11, migration011UuidBridgeTable⟩ :: rest) db := by
  have hlength : (db.newRows env).length = db.bridges.carried.length := List.length_mapIdx
  have htake : (db.newRows env).take k = db.newRows env := by
    refine List.take_of_length_le ?_
    rcases h.bridges with ⟨hnone, hnil⟩ | hsome
    · have hzero : mid.bridges.carried.length = 0 := by
        rw [Store.bridges, hnone]
        rfl
      omega
    · rw [Store.bridges, hsome, Option.getD_some, carried_rebuilt, List.length_take] at hall
      omega
  rw [htake] at h
  obtain ⟨hcreated, hb⟩ := h.create
  rw [init, h.script hdone happ, Option.bind_some,
    Store.pending_congr (congrArg (·.getD []) hcreated.versions), hpending, runMigrations,
    runMigrations, run_rebuild_again env env' hcreated hb hok, run_rebuild _ huuid, if_pos hok,
    Option.bind_some, Option.bind_some]
  exact hrest _

/-- A dropped table can be dropped again. -/
theorem dropTable_again {name : String} {db mid : Store}
    (h : (Command.dropTable name).run db = some mid) :
    (Command.dropTable name).run mid = some mid := by
  cases h
  refine congrArg some (Store.ext (rfl) ?_ ?_)
  · simp [Store.setTable]
  · funext i
    simp

/-- The first migration that is left was interrupted. -/
theorem recovers_inside {env env' : Env} {m : Migration} {rest : List Migration}
    {db mid final : Store} {n : Nat} (hms : (m :: rest).Sublist migrations) (hdone : ScriptDone db)
    (happ : db.OfApp) (hpending : db.pending = m :: rest)
    (hmid : Command.runAll ((m.commands env db).take n) db = some mid)
    (hrun : runMigrations env (m :: rest) db = some final) (hsafe : Safe db mid) :
    ∃ env'' final', init env' mid = some final' ∧
      runMigrations env'' (m :: rest) db = some final' := by
  have hm : m ∈ migrations := hms.subset List.mem_cons_self
  -- the next start does what a run with its own clock would do
  have hsame (h : init env' mid = runMigrations env' (m :: rest) db) : ∃ env'' final',
      init env' mid = some final' ∧ runMigrations env'' (m :: rest) db = some final' := by
    obtain ⟨final', hfinal'⟩ := runMigrations_success hms env env' hrun
    exact ⟨env', final', h.trans hfinal', hfinal'⟩
  have hnone (h : mid = db) : init env' mid = runMigrations env' (m :: rest) db := by
    rw [h, init_of_scriptDone hdone, hpending]
  have hversion : mid.version = db.version := Store.version_congr (Command.runAll_versions hmid)
  by_cases h11 : m.version = 11
  · obtain rfl := migration_eleven hm h11
    have hcommands : Command.runAll ((migration011UuidBridgeTable env db).take n) db = some mid := hmid
    by_cases huuid : db.bridges.isUuid = true
    · refine hsame ?_
      rw [migration011UuidBridgeTable, if_pos huuid] at hcommands
      cases n with
      | zero =>
        cases hcommands
        exact hnone rfl
      | succ n =>
        obtain ⟨mid', hmid', heq⟩ := Option.bind_eq_some_iff.1 hcommands
        rw [List.take_nil] at heq
        cases heq
        obtain ⟨hdone', happ', hbridges⟩ := dropConfig_keeps hmid' hdone happ
        have hagain {db' : Store} (hb : db'.bridges = db.bridges)
            (hdrop : (Command.dropTable "bridge_config").run db' = some mid) :
            Command.runAll (migration011UuidBridgeTable env' db') db' = some mid := by
          rw [migration011UuidBridgeTable, hb, if_pos huuid, Command.runAll, hdrop]
          rfl
        rw [init_of_scriptDone hdone', Store.pending_congr (Command.runAll_versions hmid), hpending,
          runMigrations, runMigrations, hagain hbridges (dropTable_again hmid'), hagain rfl hmid']
    · have huuid : db.bridges.isUuid = false := by simpa using huuid
      obtain ⟨db', hdb', hrest⟩ := Option.bind_eq_some_iff.1 hrun
      have hdb' : Command.runAll (migration011UuidBridgeTable env db) db = some db' := hdb'
      rw [run_rebuild env huuid] at hdb'
      split_ifs at hdb' with hok
      rcases Rebuilding.of_take huuid hok hcommands with rfl | ⟨k, hk⟩
      · exact hsame (hnone rfl)
      · have hsub : ∀ m' ∈ rest, m' ∈ migrations := fun m' hm' =>
          hms.subset (List.mem_cons_of_mem _ hm')
        have hinit := init_rebuild hk hdone happ huuid hok hpending hsafe.bridges fun a =>
          runMigrations_env hsub (not_eleven_of_sorted hms rfl) env' (env.mix env') a
        obtain ⟨final', hfinal'⟩ := runMigrations_success hms env (env.mix env') hrun
        exact ⟨env.mix env', final', hinit.trans hfinal', hfinal'⟩
  · by_cases h15 : m.version = 15
    · obtain rfl := migration_fifteen hm h15
      cases n with
      | zero =>
        cases hmid
        exact hsame (hnone rfl)
      | succ n =>
        rw [List.take_succ_cons, List.take_nil] at hmid
        refine absurd ⟨?_, hasColumn_of_bare (by simp) hmid⟩ hsafe.autoFlash
        rw [hversion]
        exact version_of_next hpending (n := migrations[11]) (List.getElem_mem _) rfl
    · by_cases h18 : m.version = 18
      · obtain rfl := migration_eighteen hm h18
        cases n with
        | zero =>
          cases hmid
          exact hsame (hnone rfl)
        | succ n =>
          rw [List.take_succ_cons] at hmid
          refine absurd ⟨?_, hasColumn_of_bare (fun c hc => ?_) hmid⟩ hsafe.transport
          · rw [hversion]
            exact version_of_next hpending (n := migrations[14]) (List.getElem_mem _) rfl
          · have hmem := List.mem_of_mem_take hc
            simp only [List.mem_cons, List.not_mem_nil, or_false] at hmem
            rcases hmem with rfl | rfl <;> exact ⟨_, _, rfl⟩
      · obtain ⟨l, hl⟩ := softMigration hm h11 h15 h18
        exact hsame (init_soft hl hdone hpending hmid)

/-- The migrations were interrupted somewhere. -/
theorem recovers_partial {env env' : Env} {ms : List Migration} {db mid final : Store}
    (hp : Partial env ms db mid) (hms : ms.Sublist migrations) (hdone : ScriptDone db)
    (happ : db.OfApp) (hpending : db.pending = ms) (hrun : runMigrations env ms db = some final)
    (hsafe : Safe db mid) :
    ∃ env'' final', init env' mid = some final' ∧ runMigrations env'' ms db = some final' := by
  induction hp generalizing final with
  | inside n h => exact recovers_inside hms hdone happ hpending h hrun hsafe
  | done => exact ⟨env', _, by rw [init_of_scriptDone hdone, hpending]; rfl, rfl⟩
  | @after m rest db db' mid h _ ih =>
    have hm : m ∈ migrations := hms.subset List.mem_cons_self
    have hsub : ∀ m' ∈ rest, m' ∈ migrations := fun m' hm' => hms.subset (List.mem_cons_of_mem _ hm')
    obtain ⟨hdone', happ'⟩ := migration_keeps hm h hdone happ
    have hrest : runMigrations env rest (db'.setVersion m.version) = some final := by
      rw [runMigrations, h, Option.bind_some] at hrun
      exact hrun
    have hcarried : mid.bridges.carried.length =
        (db'.setVersion m.version).bridges.carried.length := by
      rw [hsafe.bridges, ← migration_carried hm h]
      rfl
    obtain ⟨env'', final', hinit, hfinal'⟩ := ih ((List.sublist_cons_self _ _).trans hms)
      (hdone'.setVersion _) happ' (pending_next hpending (Command.runAll_versions h)) hrest
      ⟨hsafe.autoFlash, hsafe.transport, hcarried⟩
    by_cases h11 : m.version = 11
    · refine ⟨env, final', hinit, ?_⟩
      rw [runMigrations, h, Option.bind_some,
        runMigrations_env hsub (not_eleven_of_sorted hms h11) env env'']
      exact hfinal'
    · refine ⟨env'', final', hinit, ?_⟩
      rw [runMigrations, ← commands_congr hm h11 env env'' (.refl db), h, Option.bind_some]
      exact hfinal'

/-- An interruption is made up for by the next start exactly if it did not fall into the rebuild of
`bridges` with rows to put back, nor between a bare `ALTER` and the version of its migration. -/
theorem recovers_iff {env env' : Env} {db mid final : Store} (h : init env db = some final)
    (happ : db.OfApp) (hi : Interrupted env db mid) : Recovers env' db mid ↔ Safe db mid := by
  refine ⟨safe_of_recovers, fun hsafe => ?_⟩
  obtain ⟨db', hdb', hrun⟩ := Option.bind_eq_some_iff.1 h
  have hinit (env : Env) : init env db = runMigrations env db'.pending db' := by
    rw [init, hdb', Option.bind_some]
  have hsublist : db'.pending.Sublist migrations := List.filter_sublist
  cases hi with
  | script n hmid =>
    have hagain : init env' mid = runMigrations env' db'.pending db' := by
      rw [init, Command.rerun_soft script_isSoft (script_ready db) hmid, hdb', Option.bind_some]
    obtain ⟨final', hfinal'⟩ := runMigrations_success hsublist env env' hrun
    exact ⟨env', final', hagain.trans hfinal', (hinit env').trans hfinal'⟩
  | migrations hscript hp =>
    obtain rfl := Option.some.inj (hdb'.symm.trans hscript)
    have hcarried := Command.runAll_carried script_isPlain hdb'
    obtain ⟨env'', final', hmid, hfinal'⟩ := recovers_partial hp hsublist (scriptDone_of_run hdb')
      (Command.runAll_ofApp script_isSoft script_ofApp hdb' happ) rfl hrun
      ⟨hsafe.autoFlash, hsafe.transport, hsafe.bridges.trans hcarried.symm⟩
    exact ⟨env'', final', hmid, (hinit env'').trans hfinal'⟩

/-- A file of version 10 with one bridge. -/
def oneBridge : Store where
  versions := some [1, 2, 3, 4, 5, 6, 8, 9, 10]
  tables name :=
    if name = "devices" then some { columns := devicesColumns }
    else if name = "ota_jobs" then some
      { columns := otaJobsColumns ++ [⟨"queue_order", "INTEGER", .null⟩,
          ⟨"esphome_name", "TEXT", .null⟩, ⟨"current_increment", "INTEGER", .null⟩,
          ⟨"total_increments", "INTEGER", .null⟩, ⟨"retransmit_round", "INTEGER DEFAULT 0", .int 0⟩,
          ⟨"buffer_size_kb", "INTEGER", .null⟩, ⟨"log_events", "TEXT", .null⟩] }
    else if name = "bridges" then some
      { columns := [⟨"id", "INTEGER PRIMARY KEY AUTOINCREMENT", .null⟩, ⟨"name", "TEXT", .null⟩,
          ⟨"host", "TEXT NOT NULL", .null⟩, ⟨"port", "INTEGER", .null⟩, ⟨"api_key", "TEXT", .null⟩,
          ⟨"network_id", "TEXT", .null⟩]
        rows := [fun column => if column = "host" then .text "bridge.local" else .int 80] }
    else if name = "hidden_devices" then some
      { columns := [⟨"mac", "TEXT PRIMARY KEY", .null⟩, ⟨"hidden_at", "INTEGER NOT NULL", .null⟩] }
    else none
  indexes name :=
    if name = "idx_ota_jobs_mac_created" then some ⟨"ota_jobs", ["mac", "created_at"]⟩
    else if name = "idx_ota_jobs_status" then some ⟨"ota_jobs", ["status"]⟩
    else if name = "idx_ota_jobs_queue_order" then some ⟨"ota_jobs", ["queue_order"]⟩
    else if name = "idx_ota_jobs_esphome_name" then some ⟨"ota_jobs", ["esphome_name"]⟩
    else none

def someEnv : Env := ⟨fun index => toString index, 1, by decide⟩

theorem oneBridge_ofApp : oneBridge.OfApp := by
  intro name index hmem index' hindex'
  simp only [script, List.mem_cons, List.not_mem_nil, or_false, reduceCtorEq, false_or,
    Command.createIndex.injEq] at hmem
  rcases hmem with ⟨rfl, rfl⟩ | ⟨rfl, rfl⟩
  · cases hindex'
    rfl
  · cases hindex'
    rfl

theorem oneBridge_init : ∃ final, init someEnv oneBridge = some final :=
  Option.isSome_iff_exists.1 (by decide +kernel)

/-- The file after some statements of migration 11. -/
theorem oneBridge_interrupted (n : Nat) {mid : Store}
    (h : Command.runAll ((migration011UuidBridgeTable someEnv oneBridge).take n) oneBridge = some mid) :
    Interrupted someEnv oneBridge mid := by
  have hdone : ScriptDone oneBridge := scriptDone_iff.2 (by decide +kernel)
  refine .migrations (Command.runAll_of_done hdone) ?_
  have hpending : oneBridge.pending = migrations.drop 9 := rfl
  rw [hpending]
  exact .inside n h

/-- When the table of the bridges is dropped and the program ends, the bridge is lost. -/
theorem not_recovers : ¬∀ (env env' : Env) (db mid final : Store), init env db = some final → db.OfApp →
    Interrupted env db mid → Recovers env' db mid := by
  intro hall
  obtain ⟨final, hfinal⟩ := oneBridge_init
  have hrecovers := hall someEnv someEnv oneBridge _ final hfinal oneBridge_ofApp
    (oneBridge_interrupted 1 rfl)
  have hcarried := (safe_of_recovers hrecovers).bridges
  exact absurd hcarried (by decide +kernel)

/-- When the bridge is back in the new table, it stays there. -/
theorem recovers_oneBridge : ∃ mid, Interrupted someEnv oneBridge mid ∧
    mid.tables "bridges" ≠ oneBridge.tables "bridges" ∧ Recovers someEnv oneBridge mid := by
  obtain ⟨final, hfinal⟩ := oneBridge_init
  have hmid := oneBridge_interrupted 4 rfl
  refine ⟨_, hmid, fun heq => ?_, (recovers_iff hfinal oneBridge_ofApp hmid).2 ⟨?_, ?_, ?_⟩⟩
  · have hnames := congrArg (fun t : Option Table => t.map (·.names)) heq
    exact absurd hnames (by decide +kernel)
  · decide +kernel
  · decide +kernel
  · decide +kernel

end EspTree.AddOn.Schema
