import OpacityMigration.FileSystem.Arrange
import OpacityMigration.Proofs.Answers
import OpacityMigration.Proofs.Previews
import OpacityMigration.Proofs.SecondPass

/-!
# The check as a gate

A check ends with status 1 both where files would change and where it fails, as a migration would.
With status 0 it says that the tree is settled: it can be walked, and each file on the way holds a
text without a call. This is also when a migration succeeds and opens no file for writing. It may
write a file that a later path leads to again, but up to the first file that it opens it sees what
the check sees.

* `idle_iff`: over which files a migration succeeds without an edit.
* `ending_check`, `ending_migration`: what a check and a migration say about the tree.
* `check_is_gate`: the statuses of the two.
-/

namespace OpacityMigration

namespace Migration

variable {fs : FileSystem} {paths : List Path} {write : Bool} {stop : Nat}

/-- Whether every path leads to a text without a call. -/
def AllSettled (fs : FileSystem) (paths : List Path) : Prop :=
  ∀ path ∈ paths, ∃ text, fs.readText path = .ok text ∧ Call.find text = []

/-- A migration succeeds without an edit exactly where every path leads to a text without a call,
whether it writes or not. -/
theorem idle_iff (h : StopsAt write fs paths stop) :
    failureAt write fs paths stop = none ∧ editsBefore write fs paths stop = [] ↔
      AllSettled fs paths := by
  constructor
  · rintro ⟨hnone, hedits⟩ path hmem
    obtain rfl := h.failureAt_eq_none.mp hnone
    obtain ⟨turn, hturn, rfl⟩ := List.getElem_of_mem hmem
    have hpath : paths[turn]? = some paths[turn] := List.getElem?_eq_getElem hturn
    have hidle : ∀ turn < paths.length, editAt write fs paths turn = none := fun turn hturn =>
      List.filterMap_eq_nil_iff.mp hedits turn (List.mem_range.mpr hturn)
    have hbefore : editsBefore write fs paths turn = [] :=
      List.filterMap_eq_nil_iff.mpr fun before hlt =>
        hidle before ((List.mem_range.mp hlt).trans hturn)
    obtain ⟨id, original, -, -, hread⟩ := readText_stateAt h hturn hpath
    have hedit := hidle turn hturn
    simp only [editAt, hpath, hread, editOf_eq_none] at hedit
    rw [stateAt_of_editsBefore h hturn.le hbefore] at hread
    exact ⟨_, hread, hedit⟩
  · intro hsettled
    have hstop : stop = paths.length := by
      by_contra hne
      have hlt := Nat.lt_of_le_of_ne h.le hne
      exact h.fails hlt ((stopsAt_of_find hsettled).handled stop hlt)
    exact ⟨h.failureAt_eq_none.mpr hstop, (idle_of_find hsettled h.le).1⟩

/-- A migration opens a file for writing for each of its edits. -/
theorem opened_eq_iff (h : StopsAt true fs paths stop) :
    (stateAt true fs paths stop).opened = fs.opened ↔ editsBefore true fs paths stop = [] := by
  have hopened := (progress_stateAt h.le h.handled).opened
  rw [if_pos rfl] at hopened
  rw [hopened, List.append_left_eq_self, List.reverse_eq_nil_iff, List.filterMap_eq_nil_iff,
    List.eq_nil_iff_forall_not_mem]
  constructor
  · intro hnone e he
    obtain ⟨id, hid⟩ := fileId?_of_mem_editsBefore h he
    rw [hnone e he] at hid
    cases hid
  · intro hnone e he
    exact absurd he (hnone e)

end Migration

namespace CommandLine

open Migration

variable {fs : FileSystem} {args realArgs : List Argument} {json json' dryRun : Bool}
  {target : Target}

/-- Whether the tree can be walked and every path leads to a text without a call. -/
def Settled (fs : FileSystem) (target : Target) : Prop :=
  ∃ config paths, prepare fs target = .ok (config, paths) ∧ AllSettled fs paths

theorem settled_iff {config : Config} {paths : List Path}
    (h : prepare fs target = .ok (config, paths)) : Settled fs target ↔ AllSettled fs paths := by
  constructor
  · rintro ⟨config', paths', h', hsettled⟩
    cases h.symm.trans h'
    exact hsettled
  · intro hsettled
    exact ⟨config, paths, h, hsettled⟩

theorem not_settled_of_error {failure : Failure} (h : prepare fs target = .error failure) :
    ¬ Settled fs target := by
  rintro ⟨config, paths, h', -⟩
  cases h.symm.trans h'

/-- A check ends with status 0 exactly where nothing is left to do. -/
theorem ending_check (dryRun : Bool) :
    (execute fs (.migrate target dryRun true)).ending = 0 ↔ Settled fs target := by
  cases hprepare : prepare fs target with
  | error failure =>
    obtain ⟨-, hresult, -⟩ := execute_of_prepare_error (.migrate target dryRun true) hprepare
    rw [Performance.ending, hresult]
    exact iff_of_false (status_ne_zero _) (not_settled_of_error hprepare)
  | ok prepared =>
    obtain ⟨config, paths⟩ := prepared
    obtain ⟨stop, hstop⟩ := exists_stopsAt false fs paths
    have hwrite : false = !(dryRun || true) := by rw [Bool.or_true, Bool.not_true]
    obtain ⟨-, -, hresult⟩ := execute_of_stopsAt dryRun true hprepare hwrite hstop
    rw [settled_iff hprepare, ← idle_iff hstop, Performance.ending, hresult]
    cases failureAt false fs paths stop with
    | some failure => simp [status_ne_zero]
    | none => cases editsBefore false fs paths stop <;> simp

/-- A migration ends with status 0 and opens no file for writing exactly where nothing is left to
do. -/
theorem ending_migration :
    ((execute fs (.migrate target false false)).ending = 0 ∧
      (execute fs (.migrate target false false)).after.opened = fs.opened) ↔ Settled fs target := by
  cases hprepare : prepare fs target with
  | error failure =>
    obtain ⟨-, hresult, -⟩ := execute_of_prepare_error (.migrate target false false) hprepare
    rw [Performance.ending, hresult]
    exact iff_of_false (fun h => status_ne_zero _ h.1) (not_settled_of_error hprepare)
  | ok prepared =>
    obtain ⟨config, paths⟩ := prepared
    obtain ⟨stop, hstop⟩ := exists_stopsAt true fs paths
    obtain ⟨-, hafter, hresult⟩ :=
      execute_of_stopsAt false false hprepare (rfl : true = !(false || false)) hstop
    rw [settled_iff hprepare, ← idle_iff hstop, ← opened_eq_iff hstop, hafter, Performance.ending,
      hresult]
    cases hfails : failureAt true fs paths stop with
    | some failure => simp [status_ne_zero]
    | none =>
      rw [hstop.failureAt_eq_none.mp hfails, stateAt_succ_length]
      simp

/-- **The check is a gate.** With an output that works, a check ends with status 0 exactly if a
migration of the same target, started in the same state, ends with status 0 and opens no file for
writing; and that is exactly if nothing is left to do. -/
theorem check_is_gate (h : parse args = .ok (.run json (.migrate target dryRun true)))
    (h' : parse realArgs = .ok (.run json' (.migrate target false false))) (fs : FileSystem)
    (terminal terminal' : Bool) :
    ((run fs ⟨.works, terminal⟩ args).status = 0 ↔
      (run fs ⟨.works, terminal'⟩ realArgs).status = 0 ∧
        (run fs ⟨.works, terminal'⟩ realArgs).after.opened = fs.opened) ∧
    ((run fs ⟨.works, terminal⟩ args).status = 0 ↔ Settled fs target) := by
  obtain ⟨hcheck, -⟩ := @run_of_works fs ⟨.works, terminal⟩ _ _ _ h rfl
  obtain ⟨hreal, hafter⟩ := @run_of_works fs ⟨.works, terminal'⟩ _ _ _ h' rfl
  rw [hcheck, hreal, hafter, ending_migration]
  exact ⟨ending_check dryRun, ending_check dryRun⟩

/-- A file that may only be read, and a link to it. -/
def readOnlyTree : FileSystem :=
  (((FileSystem.empty []).putFile (.ofString "lib/a.dart") (Utf8.encode ['x'])).putLink
    (.ofString "lib/b.dart") (.ofString "a.dart")).setAccess (.ofString "lib/a.dart") (.ofDigit 4)

theorem settled_readOnlyTree : Settled readOnlyTree .standard := by
  have hfile : readOnlyTree.isFile (.ofString "/alphafix.json") = false := by cbv
  have hwalk : Walk.walk readOnlyTree .standard =
      .ok [.ofString "lib/a.dart", .ofString "lib/b.dart"] := by cbv
  have hfind : Call.find ['x'] = [] := by rw [Call.find_cons (by decide), Call.find_nil]; rfl
  refine ⟨_, _, prepare_standard rfl hfile hwalk, ?_⟩
  intro path hpath
  refine ⟨['x'], ?_, hfind⟩
  rcases List.mem_pair.mp hpath with rfl | rfl
  · cbv
  · cbv

theorem check_is_gate_readOnlyTree :
    let check := [argument "migrate", argument "--check"]
    parse check = .ok (.run false (.migrate .standard false true)) ∧
      parse [] = .ok (.run false (.migrate .standard false false)) ∧
      (run readOnlyTree ⟨.works, false⟩ check).status = 0 ∧
      (run readOnlyTree ⟨.works, false⟩ []).status = 0 ∧
      (run readOnlyTree ⟨.works, false⟩ []).after.opened = readOnlyTree.opened := by
  intro check
  have hcheck : parse check = .ok (.run false (.migrate .standard false true)) := by cbv
  have hreal : parse [] = .ok (.run false (.migrate .standard false false)) := rfl
  obtain ⟨hgate, hsettled⟩ := check_is_gate hcheck hreal readOnlyTree false false
  have hstatus := hsettled.mpr settled_readOnlyTree
  exact ⟨hcheck, hreal, hstatus, hgate.mp hstatus⟩

end CommandLine

end OpacityMigration
