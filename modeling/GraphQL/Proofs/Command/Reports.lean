import GraphQL.Command
import GraphQL.Proofs.Snippets
import GraphQL.Proofs.Statistics.Totals

/-! What the commands report on the same files. Checking sorts out the files that fail; statistics are
collected in a loop that meets them among the others. Where the report of a file cannot be written, both
break off. -/
namespace GraphQL.Command

/-! ### Files -/

section

variable (d : Document) (e : LoadFault) (loaded : List (Except LoadFault Document))

@[simp] theorem documents_ok : documents (.ok d :: loaded) = d :: documents loaded := rfl

@[simp] theorem documents_error : documents (.error e :: loaded) = documents loaded := rfl

@[simp] theorem faults_ok : faults (.ok d :: loaded) = faults loaded := rfl

@[simp] theorem faults_error : faults (.error e :: loaded) = e :: faults loaded := rfl

theorem mem_faults : e ∈ faults loaded ↔ .error e ∈ loaded := by
  induction loaded with
  | nil => simp [faults]
  | cons file loaded ih => cases file with
    | ok d => simp [ih]
    | error e => simp [ih]

/-- Each file gives a document or fails. -/
theorem length_documents_add_faults :
    (documents loaded).length + (faults loaded).length = loaded.length := by
  induction loaded with
  | nil => rfl
  | cons file loaded ih =>
    cases file with
    | ok d => rw [documents_ok, faults_ok, List.length_cons, List.length_cons]; omega
    | error e => rw [documents_error, faults_error, List.length_cons, List.length_cons]; omega

end

section

variable {loaded : List (Except LoadFault Document)} {reports : List String}

/-- There are as many reports as files that fail. -/
theorem length_of_faultReports (written : faultReports loaded = .ok reports) :
    reports.length = (faults loaded).length := by
  simpa using (congrArg List.length (mapM_eq_ok_iff.mp written)).symm

/-- There are reports just if a file fails. -/
theorem isEmpty_of_faultReports (written : faultReports loaded = .ok reports) :
    reports.isEmpty = false ↔ ∃ e, .error e ∈ loaded := by
  rw [List.isEmpty_eq_false_iff, ← List.length_pos_iff, length_of_faultReports written,
    List.length_pos_iff_exists_mem]
  simp only [mem_faults]

end

/-! ### The loop -/

/-- The loop leaves the visitors where walks over the documents alone do, and has the reports of the
files that gave none in their order, if all of them can be written. -/
theorem Tally.foldlM_add (t : Tally) (loaded : List (Except LoadFault Document)) :
    loaded.foldlM add t = (faultReports loaded).map fun reports =>
      ⟨(documents loaded).foldl Statistics.survey t.seats, t.walked + (documents loaded).length,
        t.failed ++ reports⟩ := by
  induction loaded generalizing t with
  | nil => simp [documents, faultReports, faults, pure, Except.pure, Except.map]
  | cons file loaded ih =>
    rw [List.foldlM_cons]
    cases file with
    | ok d =>
      change loaded.foldlM add _ = _
      simp only [ih, documents_ok, List.foldl_cons, List.length_cons, Nat.add_assoc, Nat.add_comm 1]
      rfl
    | error e =>
      rw [documents_error, faultReports, faults_error, List.mapM_cons, ← faultReports, add]
      cases e.report with
      | error fault => rfl
      | ok report =>
        change loaded.foldlM add _ = _
        rw [ih]
        cases faultReports loaded with
        | error fault => rfl
        | ok reports =>
          simp only [Except.map, List.append_assoc]
          rfl

/-- The totals of documents as text. -/
def totals (ds : List Document) : String :=
  s!"Walked {ds.length} documents:\n{(Statistics.ofDocuments ds).render}"

/-- The report on statistics, without the loop. -/
theorem statsReport_eq (loaded : List (Except LoadFault Document)) :
    statsReport loaded = (faultReports loaded).map fun reports =>
      let report := Report.succeed (totals (documents loaded))
      if reports.isEmpty then report
      else report.withErrors reports s!"{reports.length} GraphQL files failed to parse." := by
  have start : Tally.start = ⟨Statistics.collectors, 0, []⟩ := rfl
  rw [statsReport, Tally.foldlM_add, start]
  simp only [Nat.zero_add, List.nil_append]
  cases faultReports loaded with
  | error fault => rfl
  | ok reports =>
    change (if reports.isEmpty then _ else _) = _
    split
    · next none => simp only [none, Except.map, if_true]; rfl
    · next some => simp only [some, Except.map]; rfl

/-! ### Reports -/

/-- The definitions found in checked files as text. -/
def findings (files others definitions : Nat) : String :=
  s!"All GraphQL parsed successfully:\n  * Checked {files} files.\n" ++
    s!"  * Skipped {others} non-graphql files.\n  * Parsed {definitions} definitions."

/-- A report lists failures, and says what went wrong on the whole. -/
def Report.Lists (r : Report) (failures : List String) (summary : String) : Prop :=
  r.errors = some ("\n".intercalate (failures ++ ["❌ " ++ summary]))

/-- Reports on checked files and on their statistics that tell the same, and the reports of the files
that fail. -/
structure Agree (others : Nat) (loaded : List (Except LoadFault Document)) (reports : List String)
    (check stats : Report) : Prop where
  /-- Every file that fails has its report, in the order of the files. -/
  reported : (faults loaded).map LoadFault.report = reports.map .ok
  check_fails : check.success = false ↔ ∃ e, .error e ∈ loaded
  stats_fails : stats.success = false ↔ ∃ e, .error e ∈ loaded
  /-- If a file fails, both list the reports of those that do in the order of the files, and say how
  many these are. -/
  failures : (∃ e, .error e ∈ loaded) →
    let count := (faults loaded).length
    check.Lists reports s!"{count} of {loaded.length} GraphQL files failed to parse." ∧
      stats.Lists reports s!"{count} GraphQL files failed to parse."
  no_failures : (¬∃ e, .error e ∈ loaded) → check.errors = none ∧ stats.errors = none
  /-- In any case there are the totals of the files that did not fail. -/
  totals : stats.output = some ("✅ " ++ totals (documents loaded))
  /-- These do not depend on where files fail. -/
  unaffected : ∀ others' loaded' stats', documents loaded' = documents loaded →
    Action.stats.report others' loaded' = .ok stats' → stats'.output = stats.output
  every_file : (documents loaded).length + (faults loaded).length = loaded.length
  /-- If no file fails, as many definitions are checked as are counted in both groups. -/
  definitions : check.success = true →
    let census := (Statistics.ofDocuments (documents loaded)).census
    check.output =
      some ("✅ " ++ findings loaded.length others (census.executable + census.typeSystem))

section

variable {others : Nat} {loaded : List (Except LoadFault Document)} {reports : List String}

/-- The totals are those of the documents, whatever else there is. -/
theorem output_stats {stats : Report} (reported : Action.stats.report others loaded = .ok stats) :
    stats.output = some ("✅ " ++ totals (documents loaded)) := by
  rw [Action.report, statsReport_eq] at reported
  cases written : faultReports loaded with
  | error fault =>
    rw [written] at reported
    cases reported
  | ok reports =>
    rw [written] at reported
    cases reported
    dsimp only
    split <;> rfl

theorem reports_of_failure (others : Nat) (written : faultReports loaded = .ok reports)
    (failed : ∃ e, .error e ∈ loaded) :
    Action.check.report others loaded = .ok (.fail reports
        s!"{(faults loaded).length} of {loaded.length} GraphQL files failed to parse.") ∧
      Action.stats.report others loaded =
        .ok ((Report.succeed (totals (documents loaded))).withErrors reports
          s!"{(faults loaded).length} GraphQL files failed to parse.") := by
  have reported := (isEmpty_of_faultReports written).mpr failed
  have count := length_of_faultReports written
  constructor
  · rw [Action.report, checkReport, written]
    change (if reports.isEmpty then _ else _) = _
    rw [reported, count]
    rfl
  · rw [Action.report, statsReport_eq, written]
    simp only [Except.map, reported, count]
    rfl

theorem reports_without_failure (others : Nat) (written : faultReports loaded = .ok reports)
    (fine : ¬∃ e, .error e ∈ loaded) :
    let census := (Statistics.ofDocuments (documents loaded)).census
    Action.check.report others loaded =
        .ok (.succeed (findings loaded.length others (census.executable + census.typeSystem))) ∧
      Action.stats.report others loaded = .ok (.succeed (totals (documents loaded))) := by
  have nothing : reports.isEmpty = true := by
    rw [← isEmpty_of_faultReports written, Bool.not_eq_false] at fine
    exact fine
  have definitions := (Statistics.describes_ofDocuments (documents loaded)).definitions
  constructor
  · rw [Action.report, checkReport, written]
    change (if reports.isEmpty then _ else _) = _
    rw [nothing, definitions]
    rfl
  · rw [Action.report, statsReport_eq, written]
    simp only [Except.map, nothing, if_true]

/-- The commands agree where there are reports of all files that fail. -/
theorem agree_of_faultReports (written : faultReports loaded = .ok reports) :
    ∃ check stats, Action.check.report others loaded = .ok check ∧
      Action.stats.report others loaded = .ok stats ∧ Agree others loaded reports check stats := by
  have reported := mapM_eq_ok_iff.mp written
  have every_file := length_documents_add_faults loaded
  have unaffected {stats : Report} (found : Action.stats.report others loaded = .ok stats) :
      ∀ others' loaded' stats', documents loaded' = documents loaded →
        Action.stats.report others' loaded' = .ok stats' → stats'.output = stats.output :=
    fun _ _ _ same found' => by rw [output_stats found', output_stats found, same]
  by_cases failed : ∃ e, .error e ∈ loaded
  · obtain ⟨check, stats⟩ := reports_of_failure others written failed
    exact ⟨_, _, check, stats, {
      reported
      check_fails := iff_of_true rfl failed
      stats_fails := iff_of_true rfl failed
      failures := fun _ => ⟨rfl, rfl⟩
      no_failures := fun fine => absurd failed fine
      totals := output_stats stats
      unaffected := unaffected stats
      every_file
      definitions := fun success => nomatch success }⟩
  · obtain ⟨check, stats⟩ := reports_without_failure others written failed
    exact ⟨_, _, check, stats, {
      reported
      check_fails := iff_of_false Bool.noConfusion failed
      stats_fails := iff_of_false Bool.noConfusion failed
      failures := fun fails => absurd fails failed
      no_failures := fun _ => ⟨rfl, rfl⟩
      totals := output_stats stats
      unaffected := unaffected stats
      every_file
      definitions := fun _ => rfl }⟩

/-- Both commands break off where a report of a file that fails cannot be written. -/
theorem reports_broken_off {e : LoadFault} (failed : .error e ∈ loaded)
    (broken : e.report = .error .width) (action : Action) :
    action.report others loaded = .error .width := by
  have fault : faultReports loaded = .error .width := by
    cases written : faultReports loaded with
    | error f =>
      obtain ⟨⟩ := f
      rfl
    | ok reports =>
      have mem := List.mem_map_of_mem (f := LoadFault.report) ((mem_faults e loaded).mpr failed)
      rw [mapM_eq_ok_iff.mp written, broken] at mem
      obtain ⟨_, -, ⟨⟩⟩ := List.mem_map.mp mem
  cases action with
  | check =>
    rw [Action.report, checkReport, fault]
    rfl
  | stats =>
    rw [Action.report, statsReport_eq, fault]
    rfl

end

/-- The commands agree on files. If there is a report of every file that fails, both fail just if some
file does, and list the same failures then; the totals are those of the other files; and if none fails,
both have the same number of definitions. If the report of some file cannot be written, both break off
with nothing to say. -/
theorem reports_agree (others : Nat) (loaded : List (Except LoadFault Document)) :
    ((∀ e, .error e ∈ loaded → ∃ report, e.report = .ok report) →
      ∃ reports check stats, Action.check.report others loaded = .ok check ∧
        Action.stats.report others loaded = .ok stats ∧ Agree others loaded reports check stats) ∧
    ((∃ e, .error e ∈ loaded ∧ e.report = .error .width) →
      ∀ action : Action, action.report others loaded = .error .width) := by
  refine ⟨fun all => ?_, fun ⟨e, failed, broken⟩ => reports_broken_off failed broken⟩
  choose! report written using all
  have reported : faultReports loaded = .ok ((faults loaded).map report) := by
    rw [faultReports, mapM_eq_ok_iff, List.map_map]
    exact List.map_congr_left fun e mem => written e ((mem_faults e loaded).mp mem)
  exact ⟨_, agree_of_faultReports reported⟩

/-- Two queries, with a file that is no text in front of each. -/
def filesThatFail : List (Except LoadFault Document) :=
  [.error (.unreadable "a.graphql" .notText), .ok (Statistics.shortQuery ["a"]),
    .error (.unreadable "b.graphql" .notText), .ok (Statistics.shortQuery ["b", "c"])]

/-- The two queries alone. -/
def filesThatLoad : List (Except LoadFault Document) :=
  [.ok (Statistics.shortQuery ["a"]), .ok (Statistics.shortQuery ["b", "c"])]

/-- Files that fail are counted and told of, and left out of the totals. -/
theorem reports_agree_some_fail :
    ∃ check stats stats', Action.check.report 1 filesThatFail = .ok check ∧
      Action.stats.report 1 filesThatFail = .ok stats ∧
      Action.stats.report 0 filesThatLoad = .ok stats' ∧
      check.success = false ∧ stats.success = false ∧
      check.Lists
        ["error: Failed to read \"a.graphql\": stream did not contain valid UTF-8",
          "error: Failed to read \"b.graphql\": stream did not contain valid UTF-8"]
        "2 of 4 GraphQL files failed to parse." ∧
      stats'.output = stats.output := by
  have failed : ∃ e, .error e ∈ filesThatFail := ⟨_, List.mem_cons_self⟩
  obtain ⟨reports, check, stats, checked, counted, agree⟩ := (reports_agree 1 filesThatFail).1
    fun e mem => by
      simp only [filesThatFail, List.mem_cons, List.not_mem_nil, or_false, reduceCtorEq, false_or,
        Except.error.injEq] at mem
      rcases mem with rfl | rfl <;> exact ⟨_, rfl⟩
  obtain ⟨_, _, stats', -, counted', -⟩ := (reports_agree 0 filesThatLoad).1
    fun e mem => by simp [filesThatLoad] at mem
  have written : (faults filesThatFail).map LoadFault.report =
      ["error: Failed to read \"a.graphql\": stream did not contain valid UTF-8",
        "error: Failed to read \"b.graphql\": stream did not contain valid UTF-8"].map .ok := by
    decide +kernel
  obtain rfl := List.map_injective_iff.mpr (fun _ _ => Except.ok.inj)
    (agree.reported.symm.trans written)
  exact ⟨check, stats, stats', checked, counted, counted', agree.check_fails.mpr failed,
    agree.stats_fails.mpr failed, (agree.failures failed).1,
    agree.unaffected 0 filesThatLoad stats' rfl counted'⟩

/-- A file with an error far to the right, of which neither command has anything to say. -/
theorem reports_broken_off_far_right : ∃ e, (Source.farTilde 65536).parseDocument = .error e ∧
    ∀ action : Action, ¬∃ report, action.report 0 [.error (.violation e)] = .ok report := by
  obtain ⟨e, refused, broken⟩ := Source.farTilde_unreported (n := 65536) (by decide)
  refine ⟨e, refused, fun action ⟨report, written⟩ => ?_⟩
  rw [reports_broken_off (e := .violation e) List.mem_cons_self broken action] at written
  cases written

end GraphQL.Command
