/-
# Statistics of all tables

The statistics of a table take two scans, and both come by the same rows: a scan that is rewound
replays its table, whatever the pool has evicted in the meantime (`passes_run`).  So the ranges that
the first finds are those of the values that the second counts, and what the statistics say of the
table is `TableStats.Describes`.

Nothing but reading is done (`compute_quiets`), so the next table finds its rows as they were.  One
table after another, the registry comes to cover them all (`Covers.add`, `computeEach_run`).
-/
import RowStore.Proofs.Database.Names
import RowStore.Proofs.Plan.Rows
import RowStore.Proofs.Statistics.Columns

namespace RowStore

namespace TableStats

/-! ## 1. Two passes over a table -/

/-- What the statistics say of the rows of a table. -/
structure Describes (stats : TableStats) (schema : Schema) (buckets : Nat) (rows : List Row) :
    Prop where
  total : stats.total = rows.length
  columns : stats.histograms.length = schema.columns.length
  /-- Each column has a histogram of its kind, of the values of all rows. -/
  column : ∀ field c, schema.column? field = some c → ∃ h, stats.histogram? field = some h ∧
    h.total = stats.total ∧ Histogram.Describes buckets c.type (Row.column rows field) h

/-- What goes twice over a stream to make the statistics of a table. -/
def passes {σ : Type} (stream : RowStream σ) (table : TableRef) (pageCost : Float) (buckets : Nat) :
    StreamM σ TableStats := do
  stream.start
  let rows ← stream.collect
  let empty ← StreamM.onDatabase <| Database.attempt <|
    (stream.schema.columns.zip (ranges stream.schema rows)).mapM fun (c, range) =>
      emptyHistogram buckets c range
  stream.rewind
  let histograms := (← stream.collect).foldl addRow empty
  return { table, pageCost, total := rows.length, histograms }

theorem compute_eq (table : TableRef) (pageCost : Float) (buckets : Nat) :
    compute table pageCost buckets = Database.file table >>= fun f =>
      StreamM.runFrom (passes (Scan.stream table f.layout.schema) table pageCost buckets) none :=
  rfl

/-- **Both passes** come by the rows that the stream replays. -/
theorem passes_run {σ : Type} {stream : RowStream σ} {Ok : Database → Prop} {rows : List Row}
    {At : σ → List Row → Prop} (h : stream.Replays Ok rows At) (table : TableRef) (pageCost : Float)
    {buckets : Nat} (hsome : 0 < buckets) (state : σ) {db : Database} (hok : Ok db) :
    ∃ stats state' db', (passes stream table pageCost buckets).run (state, db) =
        .ok stats (state', db') ∧ Ok db' ∧ stats.table = table ∧ stats.pageCost = pageCost ∧
      stats.Describes stream.schema buckets rows := by
  obtain ⟨empty, hempty, hlength, hcolumns⟩ := exists_histograms hsome h.schema
  obtain ⟨state₁, db₁, hstart, hok₁, hat₁⟩ := h.start state db hok
  obtain ⟨state₂, db₂, hfirst, hok₂, hat₂⟩ := h.collect hok₁ hat₁
  obtain ⟨state₃, db₃, hrewind, hok₃, hat₃⟩ := h.rewind state₂ db₂ [] hok₂ hat₂
  obtain ⟨state₄, db₄, hsecond, hok₄, -⟩ := h.collect hok₃ hat₃
  have hmade : (Database.attempt (Except.ok empty)).run db₂ = .ok empty db₂ := rfl
  refine ⟨⟨table, pageCost, rows.length, rows.foldl addRow empty⟩, state₄, db₄, ?_, hok₄, rfl, rfl,
    rfl, hlength, fun field c hc => ?_⟩
  · simp only [passes, EStateM.run_bind, hstart, hfirst, hempty, StreamM.run_onDatabase_ok hmade,
      hrewind, hsecond, EStateM.run_pure]
  · obtain ⟨h', hh, hd⟩ := hcolumns field c hc
    exact ⟨h', hh, hd.total_eq.trans (Row.column_fits h.schema hc).1, hd⟩

theorem passes_onlyReads (table : TableRef) (schema : Schema) (pageCost : Float) (buckets : Nat) :
    StreamM.OnlyReads (passes (Scan.stream table schema) table pageCost buckets) := by
  refine .bind (.setState _) fun _ => .bind (Scan.collect_onlyReads table schema) fun rows => ?_
  refine .bind (.onDatabase fun db _ => Database.attempt_quiets _ db) fun empty => ?_
  refine .bind Scan.rewind_onlyReads fun _ => ?_
  exact .bind (Scan.collect_onlyReads table schema) fun again => .pure _

/-- **Working out statistics** is quiet, however it ends. -/
theorem compute_quiets {db : Database} (h : Sound db) (table : TableRef) (pageCost : Float)
    (buckets : Nat) : Quiets db (endState ((compute table pageCost buckets).run db)) := by
  have hfile := Database.file_quiets table db
  rw [compute_eq, EStateM.run_bind]
  cases hr : (Database.file table).run db with
  | error e db₁ =>
    rw [hr] at hfile
    exact hfile
  | ok f db₁ =>
    rw [hr] at hfile
    exact hfile.trans
      ((passes_onlyReads table f.layout.schema pageCost buckets).runFrom none (h.quiets hfile))

/-- The statistics are those of a table of the database. -/
def Of (stats : TableStats) (db : Database) (settings : Settings) (id : TableId) : Prop :=
  ∃ f, db.table? id = some f ∧ db.ref? id = some stats.table ∧ stats.pageCost = settings.pageCost ∧
    stats.Describes f.layout.schema settings.buckets (db.tableRows id)

/-- **The statistics of a table** of a database at rest, worked out at any time while the tables stay
as they are. -/
theorem compute_run {db db₁ : Database} (hrest : db.AtRest) (hstill : db.Still db₁)
    (hq : Quiets db db₁) {settings : Settings} (hsome : 0 < settings.buckets) {id : TableId}
    {ref : TableRef} (href : db.ref? id = some ref) :
    ∃ stats db₂, (compute ref settings.pageCost settings.buckets).run db₁ = .ok stats db₂ ∧
      db.Still db₂ ∧ Quiets db db₂ ∧ stats.Of db settings id := by
  obtain ⟨s, hs, rfl⟩ := hrest.exists_said href
  obtain ⟨f, htable, -, hlayout, -⟩ := Database.said_eq_some hs
  obtain ⟨f₁, hfile, -, hd⟩ := hstill.1.file hs
  have hreplays := Scan.replays hs (hrest.mirrors.schema_rows hs)
  rw [hrest.rows_said hs] at hreplays
  obtain ⟨stats, state, db₂, hrun, hstill₂, htable', hcost, hdescribes⟩ :=
    passes_run hreplays s.ref settings.pageCost hsome none hstill
  have hcompute : (compute s.ref settings.pageCost settings.buckets).run db₁ = .ok stats db₂ := by
    simp only [compute_eq, EStateM.run_bind, hfile, hd.layout, StreamM.runFrom_ok hrun]
  have hquiets := compute_quiets (hrest.sound.quiets hq) s.ref settings.pageCost settings.buckets
  rw [hcompute] at hquiets
  exact ⟨stats, db₂, hcompute, hstill₂, hq.trans hquiets, f, htable, htable' ▸ href, hcost,
    hlayout ▸ hdescribes⟩

end TableStats

/-! ## 2. A table that is not on the disk yet -/

namespace Sample

/-- What stores a second row in the small table. -/
def storing : List Act := [.row ⟨schema, [.int (-5)], none, rfl⟩, .insert 0 0]

/-- The second row stands on a page of its own, which is cached and has not been written. -/
def grown : Database := ((Session.start ((database 1).openAll [opening])).after storing).db

theorem grown_atRest : grown.AtRest ∧ grown.catalog.Paired := by
  have h₀ : Database.onDisk disk 8 1 = .ok (database 1) := rfl
  have hkind : ∀ act ∈ storing, act.Marked ∧ act.KeepsRoom := by
    simp [storing, Act.Marked, Act.KeepsRoom]
  have hsound := (Database.sound_openAll h₀ (ordinary 1).separate).1
  have hgrown : Sound grown := Session.sound_after hsound storing
  constructor
  · exact Session.atRest_after h₀ (ordinary 1) (fun act hact => (hkind act hact).1)
      (fun act hact => (hkind act hact).2) (hgrown.idle_of_toList (by cbv))
  · exact Session.paired_after hsound (Database.paired_openAll (Catalog.paired_empty 8) _) storing

end Sample

/-! ## 3. All tables -/

namespace StatsRegistry

/-- The registry has the statistics of these tables under their names, and no others. -/
structure Covers (db : Database) (settings : Settings) (ids : List TableId)
    (registry : StatsRegistry) : Prop where
  size : registry.size = ids.length
  names : ∀ name, name ∈ registry ↔ ∃ id ∈ ids, db.catalog.nameOf? id = some name
  stats : ∀ id ∈ ids, ∀ name, db.catalog.nameOf? id = some name →
    ∃ stats, registry[name]? = some stats ∧ stats.Of db settings id

variable {db : Database} {settings : Settings}

theorem covers_nothing (db : Database) (settings : Settings) : Covers db settings [] ∅ where
  size := Std.TreeMap.size_emptyc
  names name := by simp
  stats id hid := by cases hid

/-- **One table more**, whose name is not that of another. -/
theorem Covers.add {ids : List TableId} {registry : StatsRegistry}
    (h : Covers db settings ids registry) (hnames : db.catalog.Paired) {id : TableId}
    (hnew : id ∉ ids) {name : String} (hname : db.catalog.nameOf? id = some name)
    {stats : TableStats} (hstats : stats.Of db settings id) :
    Covers db settings (ids ++ [id]) (registry.insert name stats) where
  size := by
    have hfree : registry.contains name = false := by
      refine Bool.eq_false_iff.mpr fun hcontains => ?_
      obtain ⟨id', hid', hname'⟩ := (h.names name).mp (Std.TreeMap.mem_iff_contains.mpr hcontains)
      exact hnew (hnames.eq_of_name hname' hname ▸ hid')
    rw [Std.TreeMap.size_insert, hfree, if_neg Bool.false_ne_true, h.size, List.length_append]
    rfl
  names other := by
    rw [Std.TreeMap.mem_insert, Std.compare_eq_iff_eq, h.names]
    constructor
    · rintro (rfl | ⟨id', hid', hname'⟩)
      · exact ⟨id, List.mem_append_right _ (List.mem_singleton_self id), hname⟩
      · exact ⟨id', List.mem_append_left _ hid', hname'⟩
    · rintro ⟨id', hid', hname'⟩
      rcases List.mem_append.mp hid' with hid' | hid'
      · exact Or.inr ⟨id', hid', hname'⟩
      · obtain rfl := List.mem_singleton.mp hid'
        exact Or.inl (Option.some.inj (hname.symm.trans hname'))
  stats id' hid' other hother := by
    rw [Std.TreeMap.getElem?_insert]
    by_cases heq : name = other
    · obtain rfl := heq
      obtain rfl := hnames.eq_of_name hname hother
      rw [if_pos Std.ReflCmp.compare_self]
      exact ⟨stats, rfl, hstats⟩
    · rw [if_neg fun hcompare => heq (Std.compare_eq_iff_eq.mp hcompare)]
      rcases List.mem_append.mp hid' with hid' | hid'
      · exact h.stats id' hid' other hother
      · obtain rfl := List.mem_singleton.mp hid'
        exact absurd (Option.some.inj (hname.symm.trans hother)) heq

/-- **One table after another.**  By induction on the tables that are left: those in front are
covered. -/
theorem computeEach_run (hrest : db.AtRest) (hnames : db.catalog.Paired)
    (hsome : 0 < settings.buckets) {before ids : List TableId}
    (hids : ∀ id ∈ ids, id ∈ db.catalog.tableIds) (hnodup : (before ++ ids).Nodup)
    {registry : StatsRegistry} (hcovers : Covers db settings before registry) {db₁ : Database}
    (hstill : db.Still db₁) (hq : Quiets db db₁) :
    ∃ registry' db₂, (computeEach settings registry ids).run db₁ = .ok registry' db₂ ∧
      db.Still db₂ ∧ Quiets db db₂ ∧ Covers db settings (before ++ ids) registry' := by
  induction ids generalizing before registry db₁ with
  | nil =>
    rw [List.append_nil]
    exact ⟨registry, db₁, rfl, hstill, hq, hcovers⟩
  | cons id ids ih =>
    obtain ⟨name, hname⟩ := Catalog.mem_tableIds.mp (hids id List.mem_cons_self)
    obtain ⟨entry, hentry, rfl⟩ := Option.map_eq_some_iff.mp hname
    have href : db.ref? id = some entry.file := by rw [Database.ref?, hentry, Option.map_some]
    obtain ⟨stats, db₂, hcompute, hstill₂, hq₂, hstats⟩ :=
      TableStats.compute_run hrest hstill hq hsome href
    have hnew : id ∉ before := fun hid =>
      (List.nodup_append.mp hnodup).2.2 id hid id List.mem_cons_self rfl
    have hcatalog := hq.steps.stays.catalog
    rw [List.append_cons] at hnodup ⊢
    obtain ⟨registry', db₃, hrest', hlast⟩ := ih
      (fun id' hid' => hids id' (List.mem_cons_of_mem id hid')) hnodup
      (hcovers.add hnames hnew hname hstats) hstill₂ hq₂
    refine ⟨registry', db₃, ?_, hlast⟩
    simp only [computeEach, EStateM.run_bind, EStateM.run_get, hcatalog, hentry, hcompute, hrest']

/-- **Statistics describe their tables.**  Take a database at rest: tables of any schemas and
contents, each in an ordinary file of its own and with a name of its own, and pages in the cache as
they may be, changed ones among them, that nobody holds.  With any number of buckets but none, the
statistics of all tables come out.  Each table has them under its name, and they describe its rows;
and no page of any table says anything else than before, nor has a table more pages or fewer. -/
theorem computeAll_covers (hrest : db.AtRest) (hnames : db.catalog.Paired)
    (hsome : 0 < settings.buckets) :
    ∃ registry db', (computeAll settings).run db = .ok registry db' ∧
      Covers db settings db.catalog.tableIds registry ∧
      db'.content? = db.content? ∧ db'.pageCount? = db.pageCount? ∧
      db'.tableRows = db.tableRows := by
  obtain ⟨registry, db', hrun, -, hq, hcovers⟩ := computeEach_run hrest hnames hsome
    (fun id hid => hid) db.catalog.nodup_tableIds (covers_nothing db settings)
    ⟨hrest.mirrors, hrest.idle⟩ .refl
  have hextent := hrest.sound.extent?_quiets hq
  have hcontent := (hrest.settled.quiets hrest.sound hq).2
  refine ⟨registry, db', ?_, hcovers, hcontent, Database.pageCount?_congr hextent,
    Database.tableRows_congr hextent hcontent⟩
  simp only [computeAll, EStateM.run_bind, EStateM.run_get, hrun]

/-- The only page in the pool has to be written and evicted, so that the first scan can begin. -/
theorem computeAll_covers_grown :
    Sample.grown.AtRest ∧ Sample.grown.catalog.Paired ∧ 0 < 3 ∧
    Sample.grown.pool.cache.toList.map (fun e => (e.1, e.2.page.dirty)) = [(⟨0, 1⟩, true)] ∧
    (Sample.grown.tableRows 0).map (·.values) = [[.int 7], [.int (-5)]] ∧
    ∃ registry db', (computeAll ⟨8, 1, 8, 3, 1.0⟩).run Sample.grown = .ok registry db' ∧
      registry["t"]?.map (·.histograms) = some [.numbers ⟨-5, 7, 5, #[1, 0, 1], 2⟩] ∧
      Covers Sample.grown ⟨8, 1, 8, 3, 1.0⟩ Sample.grown.catalog.tableIds registry ∧
      db'.content? = Sample.grown.content? ∧ db'.pageCount? = Sample.grown.pageCount? ∧
      db'.tableRows = Sample.grown.tableRows := by
  obtain ⟨hrest, hnames⟩ := Sample.grown_atRest
  have hsome : 0 < 3 := by decide
  have hfound : (match (computeAll ⟨8, 1, 8, 3, 1.0⟩).run Sample.grown with
      | .ok registry _ => registry["t"]?.map (·.histograms)
      | .error _ _ => none) = some [.numbers ⟨-5, 7, 5, #[1, 0, 1], 2⟩] := by decide +kernel
  obtain ⟨registry, db', hrun, hall⟩ := @computeAll_covers _ ⟨8, 1, 8, 3, 1.0⟩ hrest hnames hsome
  rw [hrun] at hfound
  exact ⟨hrest, hnames, hsome, by cbv, by cbv, registry, db', hrun, hfound, hall⟩

end StatsRegistry
end RowStore
