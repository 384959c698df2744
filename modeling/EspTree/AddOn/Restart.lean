import EspTree.AddOn.Schema
import Mathlib.Data.List.Basic
import Mathlib.Data.List.Forall2

/-!
# Interrupted migrations

What happens when `init` is interrupted after a statement and started again.  Most statements are soft:
they do nothing if their effect is there already.  Soft statements may be run again from the beginning
(`rerun_soft`).  Three migrations have others: 11 drops `bridges` and puts the rows back one by one, 15
and 18 add columns with bare `ALTER`s.

The argument for soft statements has two halves.  After a soft statement its effect is there and
stays (`done_of_run`, `Done.mono`), and a statement whose effect is there does nothing
(`run_of_done`).  So a list of them, run again from the beginning, does nothing up to the point of
interruption and goes on from there.

For the others one has to look at what is there in between.  `Rebuilding` describes the store while
migration 11 is under way, and `SameSchema` says that two stores have the same columns, which is all
that the success of a bare `ALTER` depends on.
-/

namespace EspTree.AddOn.Schema

namespace Command

/-- Statements may be run in two parts. -/
theorem runAll_append (l l' : List Command) (db : Store) :
    runAll (l ++ l') db = (runAll l db).bind (runAll l') := by
  induction l generalizing db with
  | nil => rfl
  | cons c l ih =>
    rw [List.cons_append, runAll, runAll, Option.bind_assoc]
    congr 1
    funext db
    exact ih db

/-! ## Soft statements -/

/-- The statement has no effect if its object is there. -/
def isSoft : Command → Bool
  | .createVersions | .createTable _ _ | .createIndex _ _ | .addColumnIfNotExists _ _ => true
  | _ => false

/-- The object of a soft statement is there. -/
def Done (db : Store) : Command → Prop
  | .createVersions => db.versions.isSome = true
  | .createTable name _ => (db.tables name).isSome = true
  | .createIndex name _ => (db.indexes name).isSome = true
  | .addColumnIfNotExists table column => db.hasColumn table column.name = true
  | _ => False

/-- The table of a new column is there. -/
def Ready (db : Store) : Command → Prop
  | .addColumnIfNotExists table _ => (db.tables table).isSome = true
  | _ => True

variable {c c' : Command} {db db' : Store}

/-- A statement whose effect is there does nothing. -/
theorem run_of_done (h : Done db c) : c.run db = some db := by
  cases c with
  | createVersions =>
    obtain ⟨versions, hv⟩ := Option.isSome_iff_exists.1 h
    rw [run, hv, Option.getD_some, ← hv]
  | createTable name columns => exact congrArg some (if_pos h)
  | createIndex name index => exact if_pos h
  | addColumnIfNotExists table column =>
    obtain ⟨t, ht, hmem⟩ := (Option.any_eq_true _ _).1 h
    rw [run, runAddColumn, ht]
    simp only
    rw [if_pos (by simpa using hmem)]
    rfl
  | addColumn | dropTable | insertBridge | raise => exact h.elim

/-- The tables and columns after a soft statement. -/
theorem soft_mono (hs : c.isSoft = true) (h : c.run db = some db') :
    (db.versions.isSome = true → db'.versions.isSome = true) ∧
      (∀ name, (db.tables name).isSome = true → (db'.tables name).isSome = true) ∧
      (∀ name, (db.indexes name).isSome = true → (db'.indexes name).isSome = true) ∧
      ∀ table column, db.hasColumn table column = true → db'.hasColumn table column = true := by
  cases c with
  | createVersions =>
    cases h
    exact ⟨fun _ => rfl, fun _ hn => hn, fun _ hn => hn, fun _ _ hn => hn⟩
  | createTable name columns =>
    cases h
    unfold runCreateTable
    split_ifs with hname
    · exact ⟨id, fun _ hn => hn, fun _ hn => hn, fun _ _ hn => hn⟩
    · have hset (other : String) (hn : (db.tables other).isSome = true) :
          (db.setTable name (some { columns })).tables other = db.tables other := by
        refine Function.update_of_ne ?_ _ _
        rintro rfl
        exact hname hn
      refine ⟨id, fun other hn => ?_, fun _ hn => hn, fun table column hn => ?_⟩
      · rwa [hset other hn]
      · have hsome : (db.tables table).isSome = true := by
          obtain ⟨t, ht, -⟩ := (Option.any_eq_true _ _).1 hn
          rw [ht]
          rfl
        rwa [Store.hasColumn, hset table hsome]
  | createIndex name index =>
    rw [run] at h
    split_ifs at h with hname hcolumns
    · cases h
      exact ⟨id, fun _ hn => hn, fun _ hn => hn, fun _ _ hn => hn⟩
    · cases h
      refine ⟨id, fun _ hn => hn, fun other hn => ?_, fun _ _ hn => hn⟩
      by_cases hother : other = name
      · simp [hother]
      · simpa [hother] using hn
  | addColumnIfNotExists table column =>
    cases h
    unfold runAddColumn
    cases ht : db.tables table with
    | none => exact ⟨id, fun _ hn => hn, fun _ hn => hn, fun _ _ hn => hn⟩
    | some t =>
      dsimp only
      split_ifs
      · exact ⟨id, fun _ hn => hn, fun _ hn => hn, fun _ _ hn => hn⟩
      · refine ⟨id, fun other hn => ?_, fun _ hn => hn, fun other name hn => ?_⟩
        · by_cases hother : other = table
          · simp [Store.setTable, hother]
          · simpa [Store.setTable, hother] using hn
        · by_cases hother : other = table
          · rw [Store.hasColumn, hother, ht, Option.any_some, decide_eq_true_eq] at hn
            simp only [Option.getD_some, Store.hasColumn, Store.setTable, hother, Function.update_self,
              Option.any_some, decide_eq_true_eq, Table.addColumn, Table.names, List.map_append,
              List.mem_append]
            exact .inl hn
          · simpa [Store.hasColumn, Store.setTable, hother] using hn
  | addColumn | dropTable | insertBridge | raise => cases hs

/-- Soft statements undo nothing. -/
theorem Done.mono (h : Done db c) (hs : c'.isSoft = true) (hrun : c'.run db = some db') :
    Done db' c := by
  obtain ⟨hversions, htables, hindexes, hcolumns⟩ := soft_mono hs hrun
  cases c with
  | createVersions => exact hversions h
  | createTable name columns => exact htables name h
  | createIndex name index => exact hindexes name h
  | addColumnIfNotExists table column => exact hcolumns table column.name h
  | addColumn | dropTable | insertBridge | raise => exact h.elim

/-- What a statement needs is not taken away by soft ones. -/
theorem Ready.mono (h : Ready db c) (hs : c'.isSoft = true) (hrun : c'.run db = some db') :
    Ready db' c := by
  cases c with
  | addColumnIfNotExists table column => exact (soft_mono hs hrun).2.1 table h
  | _ => trivial

/-- After a soft statement its effect is there. -/
theorem done_of_run (hs : c.isSoft = true) (hr : Ready db c) (h : c.run db = some db') :
    Done db' c := by
  cases c with
  | createVersions =>
    cases h
    rfl
  | createTable name columns =>
    cases h
    unfold runCreateTable Done
    split_ifs with hname
    · exact hname
    · simp [Store.setTable]
  | createIndex name index =>
    rw [run] at h
    split_ifs at h with hname hcolumns
    · cases h
      exact hname
    · cases h
      simp [Done]
  | addColumnIfNotExists table column =>
    cases h
    obtain ⟨t, ht⟩ := Option.isSome_iff_exists.1 hr
    simp only [Done, Store.hasColumn, runAddColumn, ht]
    split_ifs with hmem
    · simp [ht, hmem]
    · simp [Store.setTable, Table.addColumn, Table.names]
  | addColumn | dropTable | insertBridge | raise => cases hs

/-- After a list of soft statements the effects of all are there. -/
theorem done_of_runAll {l : List Command} (hs : ∀ c ∈ l, c.isSoft = true)
    (hr : ∀ c ∈ l, Ready db c) (h : runAll l db = some db') :
    (∀ c ∈ l, Done db' c) ∧ ∀ c, Done db c → Done db' c := by
  induction l generalizing db with
  | nil =>
    cases h
    exact ⟨by simp, fun _ hc => hc⟩
  | cons c l ih =>
    obtain ⟨mid, hmid, hrest⟩ := Option.bind_eq_some_iff.1 h
    have hsc := hs c List.mem_cons_self
    obtain ⟨hall, hkeep⟩ := ih (fun c hc => hs c (List.mem_cons_of_mem _ hc))
      (fun c hc => (hr c (List.mem_cons_of_mem _ hc)).mono hsc hmid) hrest
    refine ⟨fun c' hc' => ?_, fun c' hc' => hkeep c' (hc'.mono hsc hmid)⟩
    rcases List.mem_cons.1 hc' with rfl | hc'
    · exact hkeep _ (done_of_run hsc (hr _ List.mem_cons_self) hmid)
    · exact hall c' hc'

/-- To run the list again then changes nothing. -/
theorem runAll_of_done {l : List Command} (h : ∀ c ∈ l, Done db c) : runAll l db = some db := by
  induction l with
  | nil => rfl
  | cons c l ih =>
    rw [runAll, run_of_done (h c List.mem_cons_self), Option.bind_some]
    exact ih fun c hc => h c (List.mem_cons_of_mem _ hc)

/-- Soft statements that were interrupted are run again from the beginning. -/
theorem rerun_soft {l : List Command} (hs : ∀ c ∈ l, c.isSoft = true) (hr : ∀ c ∈ l, Ready db c)
    {n : Nat} {mid : Store} (hmid : runAll (l.take n) db = some mid) :
    runAll l mid = runAll l db := by
  have htake : ∀ c ∈ l.take n, c ∈ l := fun c hc => List.mem_of_mem_take hc
  have hdone := (done_of_runAll (fun c hc => hs c (htake c hc)) (fun c hc => hr c (htake c hc)) hmid).1
  calc runAll l mid = (runAll (l.take n) mid).bind (runAll (l.drop n)) := by
        rw [← runAll_append, List.take_append_drop]
    _ = runAll (l.drop n) mid := by rw [runAll_of_done hdone, Option.bind_some]
    _ = (runAll (l.take n) db).bind (runAll (l.drop n)) := by rw [hmid, Option.bind_some]
    _ = runAll l db := by rw [← runAll_append, List.take_append_drop]

/-! ## What statements keep -/

theorem run_versions (h : c.run db = some db') : db'.versions.getD [] = db.versions.getD [] := by
  have hadd {table : String} {column : Column} {db' : Store}
      (h : runAddColumn table column db = some db') : db'.versions = db.versions := by
    unfold runAddColumn at h
    split at h
    · cases h
    · split_ifs at h
      cases h
      rfl
  cases c with
  | createVersions =>
    cases h
    rfl
  | createTable name columns =>
    cases h
    unfold runCreateTable
    split_ifs <;> rfl
  | createIndex name index =>
    rw [run] at h
    split_ifs at h <;> cases h <;> rfl
  | addColumn table column => rw [hadd h]
  | addColumnIfNotExists table column =>
    cases h
    cases hrun : runAddColumn table column db with
    | none => rfl
    | some added => rw [Option.getD_some, hadd hrun]
  | dropTable name =>
    cases h
    rfl
  | insertBridge values =>
    rw [run] at h
    split at h
    · cases h
    · split_ifs at h
      cases h
      rfl
  | raise => cases h

/-- Statements leave the versions alone; these are written at the end of a migration. -/
theorem runAll_versions {l : List Command} (h : runAll l db = some db') :
    db'.versions.getD [] = db.versions.getD [] := by
  induction l generalizing db with
  | nil =>
    cases h
    rfl
  | cons c l ih =>
    obtain ⟨mid, hmid, hrest⟩ := Option.bind_eq_some_iff.1 h
    rw [ih hrest, run_versions hmid]

/-- The statement leaves the rows of the bridges that migration 11 carries over as they are. -/
def isPlain : Command → Bool
  | .createVersions | .createTable _ _ | .createIndex _ _ => true
  | .addColumn _ column | .addColumnIfNotExists _ column => column.name ≠ "host"
  | .dropTable name => name ≠ "bridges"
  | .insertBridge _ | .raise => false

theorem carried_addColumn (t : Table) {column : Column} (h : column.name ≠ "host") :
    (t.addColumn column).carried.length = t.carried.length := by
  have hnames : "host" ∈ (t.addColumn column).names ↔ "host" ∈ t.names := by
    simp [Table.addColumn, Table.names, h.symm]
  unfold Table.carried
  by_cases hhost : "host" ∈ t.names
  · rw [if_pos (hnames.2 hhost), if_pos hhost, Table.addColumn, List.filter_map, List.length_map]
    congr 2
    funext row
    simp [Function.update_of_ne h.symm]
  · rw [if_neg (mt hnames.1 hhost), if_neg hhost]

theorem run_carried (hp : c.isPlain = true) (h : c.run db = some db') :
    db'.bridges.carried.length = db.bridges.carried.length := by
  have hadd {table : String} {column : Column} {db' : Store} (hcolumn : column.name ≠ "host")
      (h : runAddColumn table column db = some db') :
      db'.bridges.carried.length = db.bridges.carried.length := by
    unfold runAddColumn at h
    split at h
    · cases h
    · rename_i t ht
      split_ifs at h
      cases h
      by_cases hb : table = "bridges"
      · simp only [Store.bridges, Store.setTable, hb, Function.update_self, Option.getD_some]
        rw [carried_addColumn t hcolumn, ← hb, ht, Option.getD_some]
      · simp [Store.bridges, Store.setTable, Function.update_of_ne (Ne.symm hb)]
  cases c with
  | createVersions =>
    cases h
    rfl
  | createTable name columns =>
    cases h
    unfold runCreateTable
    split_ifs with hname
    · rfl
    · by_cases hb : name = "bridges"
      · have hnone : db.tables "bridges" = none := by simpa [hb] using hname
        simp [Store.bridges, Store.setTable, hb, hnone, Table.carried]
      · simp [Store.bridges, Store.setTable, Function.update_of_ne (Ne.symm hb)]
  | createIndex name index =>
    rw [run] at h
    split_ifs at h <;> cases h <;> rfl
  | addColumn table column => exact hadd (by simpa [isPlain] using hp) h
  | addColumnIfNotExists table column =>
    cases h
    cases hrun : runAddColumn table column db with
    | none => rfl
    | some added => exact hadd (by simpa [isPlain] using hp) hrun
  | dropTable name =>
    cases h
    have hb : name ≠ "bridges" := by simpa [isPlain] using hp
    simp [Store.bridges, Store.setTable, Function.update_of_ne hb.symm]
  | insertBridge | raise => cases hp

/-- Plain statements keep the number of bridges that a rebuild would carry over. -/
theorem runAll_carried {l : List Command} (hp : ∀ c ∈ l, c.isPlain = true)
    (h : runAll l db = some db') : db'.bridges.carried.length = db.bridges.carried.length := by
  induction l generalizing db with
  | nil =>
    cases h
    rfl
  | cons c l ih =>
    obtain ⟨mid, hmid, hrest⟩ := Option.bind_eq_some_iff.1 h
    rw [ih (fun c hc => hp c (List.mem_cons_of_mem _ hc)) hrest,
      run_carried (hp c List.mem_cons_self) hmid]

/-! ## Success depends on the schema -/

/-- Two files that differ in rows at most. -/
structure SameSchema (a b : Store) : Prop where
  versions : a.versions = b.versions
  indexes : a.indexes = b.indexes
  columns (name : String) : (a.tables name).map (·.columns) = (b.tables name).map (·.columns)

/-- Two statements that differ in inserted values at most. -/
inductive Alike : Command → Command → Prop
  | refl (c : Command) : Alike c c
  | insert {values values' : List (String × Value)}
      (h : values.map Prod.fst = values'.map Prod.fst) :
      Alike (.insertBridge values) (.insertBridge values')

namespace SameSchema

variable {a a' b : Store}

theorem refl (a : Store) : SameSchema a a := ⟨rfl, rfl, fun _ => rfl⟩

theorem table (h : SameSchema a b) (name : String) :
    (a.tables name = none ∧ b.tables name = none) ∨
      ∃ t u, a.tables name = some t ∧ b.tables name = some u ∧ t.columns = u.columns := by
  have hcolumns := h.columns name
  cases ha : a.tables name with
  | none =>
    rw [ha, Option.map_none, eq_comm, Option.map_eq_none_iff] at hcolumns
    exact .inl ⟨rfl, hcolumns⟩
  | some t =>
    rw [ha, Option.map_some, eq_comm, Option.map_eq_some_iff] at hcolumns
    obtain ⟨u, hu, heq⟩ := hcolumns
    exact .inr ⟨t, u, rfl, hu, heq.symm⟩

theorem hasColumn (h : SameSchema a b) (table column : String) :
    a.hasColumn table column = b.hasColumn table column := by
  rcases h.table table with ⟨ha, hb⟩ | ⟨t, u, ha, hb, heq⟩
  · rw [Store.hasColumn, Store.hasColumn, ha, hb]
  · rw [Store.hasColumn, Store.hasColumn, ha, hb]
    simp [Table.names, heq]

theorem setTable (h : SameSchema a b) (name : String) {t u : Option Table}
    (htu : t.map (·.columns) = u.map (·.columns)) :
    SameSchema (a.setTable name t) (b.setTable name u) := by
  refine ⟨h.versions, h.indexes, fun other => ?_⟩
  by_cases hother : other = name
  · simpa [Store.setTable, hother] using htu
  · simpa [Store.setTable, hother] using h.columns other

/-- Whether a bare `ALTER` succeeds depends on the columns only. -/
theorem addColumn (h : SameSchema a b) {table : String} {column : Column}
    (hrun : runAddColumn table column a = some a') :
    ∃ b', runAddColumn table column b = some b' ∧ SameSchema a' b' := by
  unfold runAddColumn at hrun ⊢
  rcases h.table table with ⟨ha, -⟩ | ⟨t, u, ha, hb, heq⟩
  · rw [ha] at hrun
    cases hrun
  · rw [ha] at hrun
    rw [hb]
    have hnames : u.names = t.names := by simp [Table.names, heq]
    dsimp only at hrun ⊢
    split_ifs at hrun with hmem
    cases hrun
    rw [if_neg (hnames ▸ hmem)]
    exact ⟨_, rfl, h.setTable table (by simp [Table.addColumn, heq])⟩

theorem addColumn_none (h : SameSchema a b) {table : String} {column : Column}
    (hrun : runAddColumn table column a = none) : runAddColumn table column b = none := by
  unfold runAddColumn at hrun ⊢
  rcases h.table table with ⟨-, hb⟩ | ⟨t, u, ha, hb, heq⟩
  · rw [hb]
  · rw [ha] at hrun
    rw [hb]
    have hnames : u.names = t.names := by simp [Table.names, heq]
    dsimp only at hrun ⊢
    split_ifs at hrun with hmem
    rw [if_pos (hnames ▸ hmem)]

/-- So does an insert, whatever its values. -/
theorem insertBridge (h : SameSchema a b) {values values' : List (String × Value)}
    (hnames : values.map Prod.fst = values'.map Prod.fst)
    (hrun : (Command.insertBridge values).run a = some a') :
    ∃ b', (Command.insertBridge values').run b = some b' ∧ SameSchema a' b' := by
  have hfst (l : List (String × Value)) (names : List String) :
      (l.all fun value => decide (value.1 ∈ names)) =
        (l.map Prod.fst).all fun name => decide (name ∈ names) := by
    rw [List.all_map]
    rfl
  rw [Command.run] at hrun ⊢
  rcases h.table "bridges" with ⟨ha, -⟩ | ⟨t, u, ha, hb, heq⟩
  · rw [ha] at hrun
    cases hrun
  · rw [ha] at hrun
    rw [hb]
    dsimp only at hrun ⊢
    have hall : (values'.all fun value => decide (value.1 ∈ u.names)) =
        values.all fun value => decide (value.1 ∈ t.names) := by
      rw [hfst, hfst, ← hnames]
      simp [Table.names, heq]
    split_ifs at hrun with hmem
    cases hrun
    rw [if_pos (hall.trans hmem)]
    exact ⟨_, rfl, h.setTable "bridges" (by simp [Table.insert, heq])⟩

/-- Alike statements do the same to the schema. -/
theorem run (h : SameSchema a b) {c c' : Command} (hc : Alike c c') (hrun : c.run a = some a') :
    ∃ b', c'.run b = some b' ∧ SameSchema a' b' := by
  cases hc with
  | insert hnames => exact h.insertBridge hnames hrun
  | refl =>
    cases c with
    | createVersions =>
      cases hrun
      exact ⟨_, rfl, by rw [h.versions], h.indexes, h.columns⟩
    | createTable name columns =>
      cases hrun
      refine ⟨_, rfl, ?_⟩
      have hsome : (b.tables name).isSome = (a.tables name).isSome := by
        rcases h.table name with ⟨ha, hb⟩ | ⟨t, u, ha, hb, -⟩
        · rw [ha, hb]
        · rw [ha, hb]
          rfl
      unfold runCreateTable
      rw [hsome]
      split_ifs
      · exact h
      · exact h.setTable name (rfl)
    | createIndex name index =>
      rw [Command.run] at hrun ⊢
      have hcolumns : a.hasColumn index.table = b.hasColumn index.table := by
        funext column
        exact h.hasColumn index.table column
      rw [← h.indexes, ← hcolumns]
      split_ifs at hrun ⊢
      · cases hrun
        exact ⟨_, rfl, h⟩
      · cases hrun
        exact ⟨_, rfl, h.versions, by rw [h.indexes], h.columns⟩
    | addColumn table column => exact h.addColumn hrun
    | addColumnIfNotExists table column =>
      cases hrun
      refine ⟨_, rfl, ?_⟩
      cases hadd : runAddColumn table column a with
      | none =>
        rw [h.addColumn_none hadd]
        exact h
      | some added =>
        obtain ⟨b', hb', hsame⟩ := h.addColumn hadd
        rw [hb']
        exact hsame
    | dropTable name =>
      cases hrun
      refine ⟨_, rfl, h.versions, by rw [h.indexes], ?_⟩
      exact (h.setTable name (rfl)).columns
    | insertBridge values => exact h.insertBridge rfl hrun
    | raise => cases hrun

/-- Lists of statements that differ in values only do the same to stores that differ in rows only.
-/
theorem runAll (h : SameSchema a b) {l l' : List Command} (hl : List.Forall₂ Alike l l')
    (hrun : Command.runAll l a = some a') : ∃ b', Command.runAll l' b = some b' ∧ SameSchema a' b' := by
  induction hl generalizing a b with
  | nil =>
    cases hrun
    exact ⟨b, rfl, h⟩
  | cons hc _ ih =>
    obtain ⟨mid, hmid, hrest⟩ := Option.bind_eq_some_iff.1 hrun
    obtain ⟨mid', hmid', hsame⟩ := h.run hc hmid
    obtain ⟨b', hb', hsame'⟩ := ih hsame hrest
    exact ⟨b', by rw [Command.runAll, hmid', Option.bind_some, hb'], hsame'⟩

theorem setVersion (h : SameSchema a b) (version : Nat) :
    SameSchema (a.setVersion version) (b.setVersion version) :=
  ⟨by rw [Store.setVersion, Store.setVersion, h.versions], h.indexes, h.columns⟩

end SameSchema

end Command

/-! ## Versions -/

namespace Store

variable {db db' : Store}

theorem version_congr (h : db'.versions.getD [] = db.versions.getD []) : db'.version = db.version := by
  rw [version, version, h]

/-- The version is the largest one that was written. -/
theorem version_setVersion (db : Store) (v : Nat) : (db.setVersion v).version = max db.version v := by
  simp [version, setVersion, List.foldl_append]

theorem pending_congr (h : db'.versions.getD [] = db.versions.getD []) : db'.pending = db.pending := by
  rw [pending, pending, version_congr h]

end Store

/-- The migrations are listed by their versions. -/
theorem migrations_sorted : migrations.Pairwise fun a b => a.version < b.version := by
  simp [migrations]

/-- The migrations that are left after one are the next ones. -/
theorem pending_next {db db' : Store} {m : Migration} {rest : List Migration}
    (h : db.pending = m :: rest) (hv : db'.versions.getD [] = db.versions.getD []) :
    (db'.setVersion m.version).pending = rest := by
  have hm : db.version < m.version := by
    have hmem : m ∈ db.pending := by simp [h]
    simpa using (List.mem_filter.1 hmem).2
  have hsorted : (m :: rest).Pairwise fun a b => a.version < b.version := by
    rw [← h]
    exact migrations_sorted.sublist List.filter_sublist
  have hversion : (db'.setVersion m.version).version = m.version := by
    rw [Store.version_setVersion, Store.version_congr hv]
    omega
  have hfilter : (db'.setVersion m.version).pending =
      db.pending.filter fun migration => decide (m.version < migration.version) := by
    rw [Store.pending, hversion, Store.pending, List.filter_filter]
    refine List.filter_congr fun migration _ => ?_
    rw [Bool.eq_iff_iff]
    simp only [Bool.and_eq_true, decide_eq_true_eq]
    omega
  rw [hfilter, h, List.filter_cons_of_neg (by simp)]
  refine List.filter_eq_self.2 fun migration hmem => ?_
  simpa using (List.pairwise_cons.1 hsorted).1 migration hmem

/-- The first migration that is pending is above the version of the store. -/
theorem version_lt_of_pending {db : Store} {m : Migration} {rest : List Migration}
    (h : db.pending = m :: rest) : m ∈ migrations ∧ db.version < m.version := by
  have hmem : m ∈ db.pending := by simp [h]
  obtain ⟨hm, hlt⟩ := List.mem_filter.1 hmem
  exact ⟨hm, by simpa using hlt⟩

/-- The version of a database tells which migration comes next. -/
theorem next_version {db : Store} {m : Migration} {rest : List Migration}
    (h : db.pending = m :: rest) {n : Migration} (hn : n ∈ migrations) (hlt : db.version < n.version) :
    m.version ≤ n.version := by
  have hmem : n ∈ m :: rest := by
    rw [← h]
    exact List.mem_filter.2 ⟨hn, by simpa using hlt⟩
  have hsorted : (m :: rest).Pairwise fun a b => a.version < b.version := by
    rw [← h]
    exact migrations_sorted.sublist List.filter_sublist
  rcases List.mem_cons.1 hmem with rfl | hmem
  · exact Nat.le_refl _
  · exact Nat.le_of_lt ((List.pairwise_cons.1 hsorted).1 n hmem)

/-! ## The script -/

/-- The script before the migrations creates what is not there. -/
theorem script_isSoft : ∀ c ∈ script, c.isSoft = true := by simp [script, Command.isSoft]

theorem script_ready (db : Store) : ∀ c ∈ script, Command.Ready db c := by
  simp [script, Command.Ready]

theorem script_isPlain : ∀ c ∈ script, c.isPlain = true := by simp [script, Command.isPlain]

/-- The objects of the script are there. -/
def ScriptDone (db : Store) : Prop := ∀ c ∈ script, Command.Done db c

/-- Once it has run, all it creates is there. -/
theorem scriptDone_of_run {db db' : Store} (h : Command.runAll script db = some db') :
    ScriptDone db' :=
  (Command.done_of_runAll script_isSoft (script_ready db) h).1

theorem ScriptDone.setVersion {db : Store} (h : ScriptDone db) (v : Nat) :
    ScriptDone (db.setVersion v) := by
  intro c hc
  have hdone := h c hc
  cases c with
  | createVersions => rfl
  | createTable | createIndex | addColumnIfNotExists => exact hdone
  | addColumn | dropTable | insertBridge | raise => exact hdone.elim

theorem ScriptDone.table {db : Store} (h : ScriptDone db) {name : String}
    (hname : name ∈ ["devices", "ota_jobs", "bridges"]) : (db.tables name).isSome = true := by
  simp only [List.mem_cons, List.not_mem_nil, or_false] at hname
  rcases hname with rfl | rfl | rfl
  · exact h (.createTable "devices" devicesColumns) (by simp [script])
  · exact h (.createTable "ota_jobs" otaJobsColumns) (by simp [script])
  · exact h (.createTable "bridges" bridgesColumns) (by simp [script])

/-- The next start then runs nothing but the pending migrations. -/
theorem init_of_scriptDone {db : Store} (h : ScriptDone db) (env : Env) :
    init env db = runMigrations env db.pending db := by
  rw [init, Command.runAll_of_done h, Option.bind_some]

/-! ## Migrations of soft statements -/

/-- The indexes of the script, where they are there, are those of the app. -/
def Store.OfApp (db : Store) : Prop :=
  ∀ name index, .createIndex name index ∈ script → ∀ index', db.indexes name = some index' →
    index'.table = index.table

/-- An index under a name of the script is the one of the script. -/
def Command.IndexOfApp : Command → Prop
  | .createIndex name index => ∀ index', .createIndex name index' ∈ script → index'.table = index.table
  | _ => True

/-- A migration of soft statements for tables of the script. -/
structure SoftMigration (m : Migration) (l : List Command) : Prop where
  soft : ∀ c ∈ l, c.isSoft = true
  plain : ∀ c ∈ l, c.isPlain = true
  ofApp : ∀ c ∈ l, c.IndexOfApp
  ready (db : Store) (h : ScriptDone db) : ∀ c ∈ l, Command.Ready db c
  run (env : Env) (db : Store) : Command.runAll (m.commands env db) db = Command.runAll l db
  interrupted (env : Env) (db mid : Store) (n : Nat)
    (h : Command.runAll ((m.commands env db).take n) db = some mid) :
    ∃ k, Command.runAll (l.take k) db = some mid

/-- A migration of soft statements that do not depend on the store is a soft one. -/
theorem softMigration_of_const {m : Migration} {l : List Command}
    (hm : ∀ env db, m.commands env db = l) (hsoft : ∀ c ∈ l, c.isSoft = true)
    (hplain : ∀ c ∈ l, c.isPlain = true) (happ : ∀ c ∈ l, c.IndexOfApp)
    (hready : ∀ db, ScriptDone db → ∀ c ∈ l, Command.Ready db c) : SoftMigration m l :=
  ⟨hsoft, hplain, happ, hready, fun env db => by rw [hm], fun env db mid n h => ⟨n, by rwa [hm] at h⟩⟩

/-- Migration 13 looks whether its column is there, which its statement does, too. -/
theorem softMigration_hostname :
    SoftMigration ⟨13, fun _ db => migration013AddHostname db⟩
      [.addColumnIfNotExists "bridges" ⟨"hostname", "TEXT DEFAULT ''", .text ""⟩] := by
  have hthere {db : Store} (hmem : "hostname" ∈ db.bridges.names) : db.hasColumn "bridges" "hostname" := by
    unfold Store.bridges at hmem
    cases ht : db.tables "bridges" with
    | none => simp [ht, Table.names] at hmem
    | some t =>
      rw [ht, Option.getD_some] at hmem
      simp [Store.hasColumn, ht, hmem]
  refine ⟨by simp [Command.isSoft], by simp [Command.isPlain], by simp [Command.IndexOfApp],
    fun db h => ?_, fun env db => ?_, fun env db mid n h => ?_⟩
  · simpa [Command.Ready] using h.table (by simp)
  · unfold migration013AddHostname
    dsimp only
    split_ifs with hmem
    · refine (Command.runAll_of_done fun c hc => ?_).symm
      rw [List.mem_singleton.1 hc]
      exact hthere hmem
    · rfl
  · unfold migration013AddHostname at h
    dsimp only at h
    split_ifs at h with hmem
    · exact ⟨0, by simpa using h⟩
    · exact ⟨n, h⟩

/-- All migrations but 11, 15 and 18 are soft. -/
theorem softMigration {m : Migration} (hm : m ∈ migrations) (h11 : m.version ≠ 11)
    (h15 : m.version ≠ 15) (h18 : m.version ≠ 18) : ∃ l, SoftMigration m l := by
  have hready {db : Store} (h : ScriptDone db) {table : String} (column : Column)
      (htable : table ∈ ["devices", "ota_jobs", "bridges"]) :
      Command.Ready db (.addColumnIfNotExists table column) := h.table htable
  simp only [migrations, List.mem_cons, List.not_mem_nil, or_false] at hm
  rcases hm with rfl | rfl | rfl | rfl | rfl | rfl | rfl | rfl | rfl | rfl | rfl | rfl | rfl | rfl | rfl |
    rfl
  case inr.inr.inr.inr.inr.inr.inr.inr.inr.inl => exact absurd rfl h11
  case inr.inr.inr.inr.inr.inr.inr.inr.inr.inr.inl => exact ⟨_, softMigration_hostname⟩
  case inr.inr.inr.inr.inr.inr.inr.inr.inr.inr.inr.inr.inl => exact absurd rfl h15
  case inr.inr.inr.inr.inr.inr.inr.inr.inr.inr.inr.inr.inr.inr.inr => exact absurd rfl h18
  all_goals
    refine ⟨_, softMigration_of_const (fun _ _ => rfl) (by simp [Command.isSoft])
      (by simp [Command.isPlain]) (by simp [Command.IndexOfApp, script]) fun db h => ?_⟩
    simp [Command.Ready, h.table]

/-! ## Migration 11 -/

/-- To put in a default again changes nothing. -/
theorem Value.or_or (v d : Value) : (v.or d).or d = v.or d := by
  unfold Value.or
  split_ifs <;> simp_all

/-- The port that is inserted for a row. -/
def portOf (t : Table) (row : Row) : Value := (t.get row "port").or (.int 80)

/-- The values that are inserted for a row. -/
def carriedValues (env : Env) (t : Table) (index : Nat) (row : Row) (port : Value) :
    List (String × Value) :=
  [("uuid", .text (env.uuid index)), ("name", t.get row "name"), ("host", t.get row "host"),
    ("port", port), ("discovered_via", (t.get row "discovered_via").or (.text "manual")),
    ("api_key", (t.get row "api_key").or (.text "")),
    ("network_id", (t.get row "network_id").or (.text "")), ("enabled", .int 1),
    ("last_connected_at", t.get row "last_connected_at"),
    ("created_at", (t.get row "created_at").or (.int env.now))]

/-- The row that stands for an old one. -/
def carriedRow (env : Env) (t : Table) (index : Nat) (row : Row) : Row := fun name =>
  match (carriedValues env t index row (portOf t row)).lookup name with
  | some value => value
  | none => ((bridgesColumns.find? (·.name == name)).map (·.dflt)).getD .null

/-- The file after migration 11, with some rows put back. -/
def Store.rebuilt (db : Store) (rows : List Row) : Store where
  versions := db.versions
  tables name :=
    if name = "bridges" then some { columns := bridgesColumns, rows }
    else if name = "bridge_config" then none
    else db.tables name
  indexes i := (db.indexes i).filter fun index =>
    index.table ≠ "bridges" ∧ index.table ≠ "bridge_config"

theorem Store.rebuilt_tables_bridges (db : Store) (rows : List Row) :
    (db.rebuilt rows).tables "bridges" = some { columns := bridgesColumns, rows } := by
  simp [rebuilt]

theorem Store.bridges_rebuilt (db : Store) (rows : List Row) :
    (db.rebuilt rows).bridges = { columns := bridgesColumns, rows } := by
  rw [bridges, rebuilt_tables_bridges, Option.getD_some]

theorem Store.rebuilt_setTable (db : Store) (rows rows' : List Row) :
    (db.rebuilt rows).setTable "bridges" (some { columns := bridgesColumns, rows := rows' }) =
      db.rebuilt rows' := by
  have htables : Function.update (db.rebuilt rows).tables "bridges"
      (some { columns := bridgesColumns, rows := rows' }) = (db.rebuilt rows').tables := by
    funext name
    by_cases hname : name = "bridges"
    · rw [hname, Function.update_self, rebuilt_tables_bridges]
    · rw [Function.update_of_ne hname]
      simp [rebuilt, hname]
  rw [setTable, htables]
  rfl

/-- Two rebuilt tables have the same columns. -/
theorem sameSchema_rebuilt (db : Store) (rows rows' : List Row) :
    Command.SameSchema (db.rebuilt rows) (db.rebuilt rows') := by
  refine ⟨rfl, rfl, fun name => ?_⟩
  unfold Store.rebuilt
  dsimp only
  split_ifs <;> rfl

/-- One of the inserts of migration 11 adds its row at the end. -/
theorem run_insertCarried {env : Env} {t : Table} {index : Nat} {row : Row} {db : Store}
    {old : List Row} (hb : db.tables "bridges" = some { columns := bridgesColumns, rows := old }) :
    (insertCarried env t index row).run db =
      if (portOf t row).toInt.isSome then
        some (db.setTable "bridges"
          (some { columns := bridgesColumns, rows := old ++ [carriedRow env t index row] }))
      else none := by
  unfold insertCarried carriedRow
  cases hport : (portOf t row).toInt with
  | none =>
    have hnone : ((t.get row "port").or (.int 80)).toInt = none := hport
    rw [hnone]
    rfl
  | some port =>
    have hsome : ((t.get row "port").or (.int 80)).toInt = some port := hport
    have hint : portOf t row = .int port := by
      cases hv : portOf t row <;> rw [hv] at hport <;> cases hport
      rfl
    rw [hsome, hint]
    simp only [Command.run, hb]
    rw [if_pos (by simp [Table.names, bridgesColumns])]
    rfl

/-- A number of them add as many rows. -/
theorem run_inserts (env : Env) (t : Table) (rows : List Row) (n : Nat) {db : Store}
    {old : List Row} (hb : db.tables "bridges" = some { columns := bridgesColumns, rows := old }) :
    Command.runAll (rows.mapIdx fun i => insertCarried env t (i + n)) db =
      if rows.all fun row => (portOf t row).toInt.isSome then
        some (db.setTable "bridges" (some
          { columns := bridgesColumns, rows := old ++ rows.mapIdx fun i => carriedRow env t (i + n) }))
      else none := by
  induction rows generalizing n db old with
  | nil =>
    have hsame : db.setTable "bridges" (some { columns := bridgesColumns, rows := old }) = db := by
      rw [Store.setTable, ← hb, Function.update_eq_self]
    simp [Command.runAll, hsame]
  | cons row rows ih =>
    rw [List.mapIdx_cons, Command.runAll, run_insertCarried hb, List.all_cons]
    cases hport : (portOf t row).toInt with
    | none => simp
    | some port =>
      have hb' : (db.setTable "bridges" (some { columns := bridgesColumns
                                                rows := old ++ [carriedRow env t (0 + n) row] })).tables
          "bridges" = some { columns := bridgesColumns
                             rows := old ++ [carriedRow env t (0 + n) row] } := by
        simp [Store.setTable]
      have hnext := ih (n + 1) hb'
      have hshift (f : Nat → Row → Command) : (rows.mapIdx fun i => f (i + 1 + n)) =
          rows.mapIdx fun i => f (i + (n + 1)) := by
        simp [Nat.add_assoc, Nat.add_comm 1 n]
      have hshift' : (rows.mapIdx fun i => carriedRow env t (i + 1 + n)) =
          rows.mapIdx fun i => carriedRow env t (i + (n + 1)) := by
        simp [Nat.add_assoc, Nat.add_comm 1 n]
      simp only [Option.isSome_some, if_true, Option.bind_some, Bool.true_and, hshift]
      rw [hnext]
      simp [Store.setTable, List.mapIdx_cons, hshift', List.append_assoc]

/-- The rows that migration 11 puts back. -/
def Store.newRows (env : Env) (db : Store) : List Row :=
  db.bridges.carried.mapIdx (carriedRow env db.bridges)

/-- The statements before the inserts leave an empty table. -/
theorem run_rebuild_head (db : Store) :
    Command.runAll [.dropTable "bridges", .createTable "bridges" bridgesColumns,
      .dropTable "bridge_config"] db = some (db.rebuilt []) := by
  refine congrArg some (Store.ext ?_ ?_ ?_)
  · simp [Command.runCreateTable, Store.setTable, Store.rebuilt]
  · funext name
    by_cases hb : name = "bridges"
    · simp [Command.runCreateTable, Store.setTable, Store.rebuilt, hb]
    · by_cases hc : name = "bridge_config"
      · simp [Command.runCreateTable, Store.setTable, Store.rebuilt, hc]
      · simp [Command.runCreateTable, Store.setTable, Store.rebuilt, hb, hc]
  · funext i
    simp [Command.runCreateTable, Store.setTable, Store.rebuilt, Bool.and_comm]

/-- Migration 11, where it rebuilds the table. -/
theorem run_rebuild (env : Env) {db : Store} (h : db.bridges.isUuid = false) :
    Command.runAll (migration011UuidBridgeTable env db) db =
      if db.bridges.carried.all fun row => (portOf db.bridges row).toInt.isSome then
        some (db.rebuilt (db.newRows env))
      else none := by
  have hinserts := run_inserts env db.bridges db.bridges.carried 0
    (db.rebuilt_tables_bridges [])
  simp only [Nat.add_zero, List.nil_append, Store.rebuilt_setTable] at hinserts
  unfold migration011UuidBridgeTable
  rw [h, if_neg (by simp), Command.runAll_append, run_rebuild_head, Option.bind_some]
  exact hinserts

theorem take_mapIdx {α β : Type*} (f : Nat → α → β) (l : List α) (n : Nat) :
    (l.mapIdx f).take n = (l.take n).mapIdx f := by
  refine List.ext_getElem? fun i => ?_
  simp only [List.getElem?_take, List.getElem?_mapIdx]
  split <;> rfl

/-- A state in the middle of the rebuild, in which some rows are there. -/
structure Rebuilding (db : Store) (rows : List Row) (mid : Store) : Prop where
  versions : mid.versions = db.versions
  rebuilt (rows' : List Row) : mid.rebuilt rows' = db.rebuilt rows'
  bridges : mid.tables "bridges" = none ∧ rows = [] ∨
    mid.tables "bridges" = some { columns := bridgesColumns, rows }
  tables (name : String) (hb : name ≠ "bridges") (hc : name ≠ "bridge_config") :
    mid.tables name = db.tables name
  indexes (name : String) (index : Index) (h : db.indexes name = some index)
    (hb : index.table ≠ "bridges") (hc : index.table ≠ "bridge_config") :
    mid.indexes name = some index

namespace Rebuilding

variable {db mid : Store} {rows : List Row}

theorem dropped (db : Store) {mid : Store} (h : (Command.dropTable "bridges").run db = some mid) :
    Rebuilding db [] mid := by
  cases h
  refine ⟨rfl, fun rows => ?_, .inl ⟨by simp [Store.setTable], rfl⟩, fun name hb _ => ?_,
    fun name index h hb _ => ?_⟩
  · refine Store.ext rfl ?_ ?_
    · funext name
      by_cases hb : name = "bridges" <;> simp [Store.setTable, Store.rebuilt, hb]
    · funext i
      simp only [Store.rebuilt, Option.filter_filter]
      congr 1
      funext index
      by_cases hb : index.table = "bridges" <;> simp [hb]
  · simp [Store.setTable, hb]
  · simp [h, hb]

/-- A store whose table has been rebuilt in part. -/
theorem rebuilt_of (db : Store) (rows : List Row) : Rebuilding db rows (db.rebuilt rows) := by
  refine ⟨rfl, fun rows' => ?_, .inr (db.rebuilt_tables_bridges rows), fun name hb hc => ?_,
    fun name index h hb hc => ?_⟩
  · refine Store.ext rfl ?_ ?_
    · funext name
      by_cases hb : name = "bridges"
      · simp [Store.rebuilt, hb]
      · by_cases hc : name = "bridge_config" <;> simp [Store.rebuilt, hb, hc]
    · funext i
      simp [Store.rebuilt]
  · simp [Store.rebuilt, hb, hc]
  · simp [Store.rebuilt, h, hb, hc]

/-- The table is made again. -/
theorem create (h : Rebuilding db rows mid) :
    Rebuilding db rows (Command.runCreateTable "bridges" bridgesColumns mid) ∧
      (Command.runCreateTable "bridges" bridgesColumns mid).tables "bridges" =
        some { columns := bridgesColumns, rows } := by
  unfold Command.runCreateTable
  rcases h.bridges with ⟨hnone, rfl⟩ | hsome
  · rw [hnone, if_neg (by simp)]
    have hb : (mid.setTable "bridges" (some { columns := bridgesColumns })).tables "bridges" =
        some { columns := bridgesColumns, rows := [] } := by simp [Store.setTable]
    refine ⟨⟨h.versions, fun rows' => ?_, .inr hb, fun name hname hc => ?_, h.indexes⟩, hb⟩
    · rw [← h.rebuilt rows']
      refine Store.ext rfl ?_ rfl
      funext name
      by_cases hname : name = "bridges" <;> simp [Store.setTable, Store.rebuilt, hname]
    · rw [← h.tables name hname hc]
      simp [Store.setTable, hname]
  · rw [hsome, if_pos (by simp)]
    exact ⟨h, hsome⟩

/-- Interrupted, migration 11 has done nothing, or it has dropped the table and put some of the rows
back. -/
theorem of_take {env : Env} {n : Nat} (h : db.bridges.isUuid = false)
    (hok : (db.bridges.carried.all fun row => (portOf db.bridges row).toInt.isSome) = true)
    (hmid : Command.runAll ((migration011UuidBridgeTable env db).take n) db = some mid) :
    mid = db ∨ ∃ k, Rebuilding db ((db.newRows env).take k) mid := by
  unfold migration011UuidBridgeTable at hmid
  rw [h, if_neg (by simp)] at hmid
  match n with
  | 0 =>
    cases hmid
    exact .inl rfl
  | 1 =>
    obtain ⟨mid', hmid', heq⟩ := Option.bind_eq_some_iff.1 hmid
    cases heq
    exact .inr ⟨0, dropped db hmid'⟩
  | 2 =>
    obtain ⟨mid', hmid', heq⟩ := Option.bind_eq_some_iff.1 hmid
    cases heq
    exact .inr ⟨0, (dropped db hmid').create.1⟩
  | k + 3 =>
    have hsplit : List.take (k + 3) ([.dropTable "bridges", .createTable "bridges" bridgesColumns,
        .dropTable "bridge_config"] ++ db.bridges.carried.mapIdx (insertCarried env db.bridges)) =
        [.dropTable "bridges", .createTable "bridges" bridgesColumns, .dropTable "bridge_config"] ++
          (db.bridges.carried.take k).mapIdx (insertCarried env db.bridges) := by
      rw [← take_mapIdx]
      rfl
    rw [hsplit, Command.runAll_append, run_rebuild_head, Option.bind_some] at hmid
    have hinserts := run_inserts env db.bridges (db.bridges.carried.take k) 0
      (db.rebuilt_tables_bridges [])
    have hall : ((db.bridges.carried.take k).all fun row =>
        (portOf db.bridges row).toInt.isSome) = true := by
      rw [List.all_eq_true] at hok ⊢
      exact fun row hrow => hok row (List.mem_of_mem_take hrow)
    simp only [Nat.add_zero, List.nil_append, Store.rebuilt_setTable, hall, if_true] at hinserts
    have heq : mid = db.rebuilt ((db.newRows env).take k) := by
      rw [Store.newRows, take_mapIdx]
      exact Option.some.inj (hmid.symm.trans hinserts)
    rw [heq]
    exact .inr ⟨k, rebuilt_of db _⟩

end Rebuilding

/-! ## The rebuild, again -/

/-- The uuids of one run of `init`, and the clock of another. -/
def Env.mix (env env' : Env) : Env := { env with uuid := env'.uuid }

/-- The port that was written is the one that is read when the migration is run again. -/
theorem portOf_again (env : Env) (t : Table) (index : Nat) (row : Row) (rows : List Row) :
    portOf { columns := bridgesColumns, rows } (carriedRow env t index row) = portOf t row := by
  have hget : ({ columns := bridgesColumns, rows } : Table).get (carriedRow env t index row) "port" =
      portOf t row := by
    simp [Table.get, Table.names, bridgesColumns, carriedRow, carriedValues, List.lookup_cons]
  rw [portOf, hget, portOf, Value.or_or]

/-- A row that is carried over twice has the time of the first run and the uuid of the second. -/
theorem carriedRow_again (env env' : Env) (t : Table) (index : Nat) (row : Row) (rows : List Row) :
    carriedRow env' { columns := bridgesColumns, rows } index (carriedRow env t index row) =
      carriedRow (env.mix env') t index row := by
  have hget (name : String) (hname : name ∈ ({ columns := bridgesColumns, rows } : Table).names) :
      ({ columns := bridgesColumns, rows } : Table).get (carriedRow env t index row) name =
        carriedRow env t index row name := if_pos hname
  have hnow : ((t.get row "created_at").or (.int env.now)).or (.int env'.now) =
      (t.get row "created_at").or (.int env.now) := by
    have hpos := env.pos
    unfold Value.or
    split_ifs with hfalsy hnow
    · simp at hnow
      omega
    · rfl
    · rfl
  have hvalues : carriedValues env' { columns := bridgesColumns, rows } index
      (carriedRow env t index row)
        (portOf { columns := bridgesColumns, rows } (carriedRow env t index row)) =
      carriedValues (env.mix env') t index row (portOf t row) := by
    rw [portOf_again]
    unfold carriedValues
    rw [hget "name" (by simp [Table.names, bridgesColumns]),
      hget "host" (by simp [Table.names, bridgesColumns]),
      hget "discovered_via" (by simp [Table.names, bridgesColumns]),
      hget "api_key" (by simp [Table.names, bridgesColumns]),
      hget "network_id" (by simp [Table.names, bridgesColumns]),
      hget "last_connected_at" (by simp [Table.names, bridgesColumns]),
      hget "created_at" (by simp [Table.names, bridgesColumns])]
    simp [carriedRow, carriedValues, List.lookup_cons, Value.or_or, hnow, Env.mix]
  unfold carriedRow at hvalues ⊢
  rw [hvalues]

theorem carried_host {t : Table} {row : Row} (h : row ∈ t.carried) (env : Env) (index : Nat) :
    carriedRow env t index row "host" ≠ .null := by
  unfold Table.carried at h
  split_ifs at h with hhost
  · have hrow := (List.mem_filter.1 h).2
    simpa [carriedRow, carriedValues, List.lookup_cons, Table.get, hhost] using hrow
  · cases h

/-- The rows that were put back are carried over again. -/
theorem carried_rebuilt (env : Env) (db : Store) (n : Nat) :
    ({ columns := bridgesColumns, rows := (db.newRows env).take n } : Table).carried =
      (db.newRows env).take n := by
  unfold Table.carried
  rw [if_pos (by simp [Table.names, bridgesColumns])]
  refine List.filter_eq_self.2 fun row hrow => ?_
  obtain ⟨i, hi, rfl⟩ := List.mem_mapIdx.1 (List.mem_of_mem_take hrow)
  simpa using carried_host (List.getElem_mem hi) env i

theorem not_isUuid_rebuilt (rows : List Row) :
    ({ columns := bridgesColumns, rows } : Table).isUuid = false := by
  simp [Table.isUuid, Table.names, bridgesColumns, uuidColumns]

/-- The rebuild from a state in which all rows have been put back. -/
theorem run_rebuild_again (env env' : Env) {db mid : Store}
    (h : Rebuilding db (db.newRows env) mid)
    (hb : mid.tables "bridges" = some { columns := bridgesColumns, rows := db.newRows env })
    (hok : (db.bridges.carried.all fun row => (portOf db.bridges row).toInt.isSome) = true) :
    Command.runAll (migration011UuidBridgeTable env' mid) mid =
      some (db.rebuilt (db.newRows (env.mix env'))) := by
  have hbridges : mid.bridges = { columns := bridgesColumns, rows := db.newRows env } := by
    rw [Store.bridges, hb, Option.getD_some]
  have hcarried : mid.bridges.carried = db.newRows env := by
    have hall := carried_rebuilt env db (db.newRows env).length
    rw [List.take_length] at hall
    rw [hbridges, hall]
  have hrows : mid.newRows env' = db.newRows (env.mix env') := by
    rw [Store.newRows, hcarried, hbridges, Store.newRows, Store.newRows, List.mapIdx_mapIdx]
    congr 1
    funext i row
    exact carriedRow_again env env' db.bridges i row _
  have hports : (mid.bridges.carried.all fun row => (portOf mid.bridges row).toInt.isSome) = true := by
    rw [hcarried, hbridges, List.all_eq_true]
    intro row hrow
    obtain ⟨i, hi, rfl⟩ := List.mem_mapIdx.1 hrow
    rw [portOf_again]
    exact List.all_eq_true.1 hok _ (List.getElem_mem hi)
  rw [run_rebuild env' (by rw [hbridges, not_isUuid_rebuilt]), if_pos hports, hrows, h.rebuilt]

end EspTree.AddOn.Schema
