import OpacityMigration.Failure
import Mathlib.Data.List.Basic
import Mathlib.Data.List.Induction

/-!
# Lists of extensions

Extensions are stripped one after the other, and each is kept unless it is there already. The first
of which nothing is left ends this, whatever comes before or after it. So there are three cases: no
extensions, one of which nothing is left, and otherwise the stripped extensions, each where it first
occurs.

* `normalizeFrom_eq`: the loop in one formula, for any extensions that are kept already.
* `pairwise_eraseDups`: repetitions are left out behind the first occurrence.
* `normalize_decides`: when a list of extensions is refused and how, and what is made of it
  otherwise.
-/

namespace OpacityMigration.Extension

variable {w : String} {ws : List String}

/-! ## Repetitions -/

section Repetitions

variable {α : Type} [BEq α] [LawfulBEq α] {l : List α}

theorem eraseDups_concat (l : List α) (c : α) :
    (l ++ [c]).eraseDups = l.eraseDups ++ if l.contains c then [] else [c] := by
  rw [List.eraseDups_append]
  by_cases hc : c ∈ l <;> simp [List.removeAll, List.eraseDups_cons, hc]

theorem eraseDups_sublist (l : List α) : l.eraseDups.Sublist l := by
  induction l using List.reverseRecOn with
  | nil => exact List.Sublist.refl _
  | append_singleton l c ih =>
    rw [eraseDups_concat]
    refine ih.append ?_
    split
    · exact List.nil_sublist _
    · exact List.Sublist.refl _

theorem eraseDups_eq_self (h : l.Nodup) : l.eraseDups = l := by
  induction l using List.reverseRecOn with
  | nil => rfl
  | append_singleton l c ih =>
    obtain ⟨hl, -, hnot⟩ := List.nodup_append.mp h
    have hc : c ∉ l := fun hc => hnot c hc c (List.mem_singleton_self c) rfl
    rw [eraseDups_concat, ih hl, if_neg (by simpa using hc)]

/-- Without its repetitions a list has its items in the order in which they first occur. -/
theorem pairwise_eraseDups (l : List α) :
    l.eraseDups.Pairwise fun a b => l.idxOf a < l.idxOf b := by
  induction l using List.reverseRecOn with
  | nil => exact List.Pairwise.nil
  | append_singleton l c ih =>
    have hold : l.eraseDups.Pairwise fun a b => (l ++ [c]).idxOf a < (l ++ [c]).idxOf b := by
      refine ih.imp_of_mem fun ha hb hlt => ?_
      rwa [List.idxOf_append_of_mem (List.mem_eraseDups.mp ha),
        List.idxOf_append_of_mem (List.mem_eraseDups.mp hb)]
    rw [eraseDups_concat]
    split
    · rwa [List.append_nil]
    · rename_i hnew
      refine List.pairwise_append.mpr ⟨hold, List.pairwise_singleton _ _, ?_⟩
      intro a ha b hb
      have ha := List.mem_eraseDups.mp ha
      obtain rfl := List.mem_singleton.mp hb
      rw [List.idxOf_append_of_mem ha, List.idxOf_append_of_notMem (by simpa using hnew)]
      exact Nat.lt_add_right _ (List.idxOf_lt_length_of_mem ha)

theorem nodup_eraseDups (l : List α) : l.eraseDups.Nodup := by
  refine (pairwise_eraseDups l).imp ?_
  rintro a b hlt rfl
  exact Nat.lt_irrefl _ hlt

/-- An item that has occurred before is left out. -/
theorem eraseDups_append_cons {a : α} {before after : List α} (h : a ∈ before) :
    (before ++ a :: after).eraseDups = (before ++ after).eraseDups := by
  rw [List.eraseDups_append, List.eraseDups_append]
  simp [List.removeAll, h]

end Repetitions

/-! ## The loop -/

/-- The first extension of which nothing is left. -/
def firstBlank? (ws : List String) : Option String :=
  ws.find? fun w => (strip w).isEmpty

theorem firstBlank?_eq_some :
    firstBlank? ws = some w ↔
      ∃ before after, ws = before ++ w :: after ∧ strip w = "" ∧ ∀ v ∈ before, strip v ≠ "" := by
  simp only [firstBlank?, List.find?_eq_some_iff_append, String.isEmpty_iff]
  constructor
  · rintro ⟨hblank, before, after, heq, hbefore⟩
    exact ⟨before, after, heq, hblank, fun v hv => by simpa using hbefore v hv⟩
  · rintro ⟨before, after, heq, hblank, hbefore⟩
    exact ⟨hblank, before, after, heq, fun v hv => by simpa using hbefore v hv⟩

theorem firstBlank?_eq_none : firstBlank? ws = none ↔ ∀ w ∈ ws, strip w ≠ "" := by
  simp [firstBlank?]

/-- Of the stripped extensions, those that are kept already are left out. -/
theorem normalizeFrom_eq (done ws : List String) :
    normalizeFrom done ws =
      match firstBlank? ws with
      | some w => .error (.blank w)
      | none => .ok (done.reverse ++ ((ws.map strip).filter (· ∉ done)).eraseDups) := by
  induction ws generalizing done with
  | nil => simp [normalizeFrom, firstBlank?]
  | cons w ws ih =>
    rw [normalizeFrom, firstBlank?, List.find?_cons, ← firstBlank?]
    cases hblank : (strip w).isEmpty with
    | true => rfl
    | false =>
      simp only [Bool.false_eq_true, if_false, ih]
      cases firstBlank? ws with
      | some v => simp
      | none =>
        by_cases hmem : strip w ∈ done
        · simp [hmem]
        · have hrest : (ws.map strip).filter (· ∉ strip w :: done) =
              ((ws.map strip).filter (· ∉ done)).filter (!· == strip w) := by
            rw [List.filter_filter]
            refine List.filter_congr fun e _ => ?_
            by_cases he : e = strip w <;> simp [he]
          rw [List.map_cons, List.filter_cons_of_pos (by simpa using hmem), List.eraseDups_cons,
            if_neg hmem, hrest]
          simp

theorem normalize_eq (ws : List String) :
    normalize ws =
      if ws = [] then .error .none
      else
        match firstBlank? ws with
        | some w => .error (.blank w)
        | none => .ok (ws.map strip).eraseDups := by
  have hall : (ws.map strip).filter (· ∉ ([] : List String)) = ws.map strip := by simp
  rw [normalize, normalizeFrom_eq, hall]
  simp

theorem normalize_eq_ok {result : List String} :
    normalize ws = .ok result ↔
      (ws ≠ [] ∧ ∀ w ∈ ws, strip w ≠ "") ∧ result = (ws.map strip).eraseDups := by
  rw [normalize_eq, ← firstBlank?_eq_none]
  by_cases hws : ws = []
  · simp [hws]
  · cases firstBlank? ws with
    | some v => simp [hws]
    | none => simp [hws, eq_comm]

theorem normalize_eq_none : normalize ws = .error .none ↔ ws = [] := by
  rw [normalize_eq]
  by_cases hws : ws = []
  · simp [hws]
  · cases firstBlank? ws <;> simp [hws]

theorem normalize_eq_blank : normalize ws = .error (.blank w) ↔ firstBlank? ws = some w := by
  rw [normalize_eq]
  by_cases hws : ws = []
  · simp [hws, firstBlank?]
  · cases firstBlank? ws <;> simp [hws]

/-! ## What is made of a list -/

theorem exists_error_iff :
    (∃ fault, normalize ws = .error fault) ↔ ws = [] ∨ ∃ w ∈ ws, strip w = "" := by
  cases h : normalize ws with
  | error fault =>
    refine iff_of_true ⟨fault, rfl⟩ ?_
    by_contra hnot
    have hall : ws ≠ [] ∧ ∀ w ∈ ws, strip w ≠ "" := by simpa [not_or] using hnot
    rw [normalize_eq_ok.mpr ⟨hall, rfl⟩] at h
    cases h
  | ok result =>
    obtain ⟨⟨hne, hall⟩, -⟩ := normalize_eq_ok.mp h
    refine iff_of_false (fun ⟨_, herror⟩ => by cases herror) ?_
    rintro (hnil | ⟨w, hw, hblank⟩)
    · exact hne hnil
    · exact hall w hw hblank

/-- Another spelling of an extension that comes before it is passed over. -/
theorem normalize_append_cons {before after : List String} {v : String}
    (h : ∃ w ∈ before, strip w = strip v) :
    normalize (before ++ v :: after) = normalize (before ++ after) := by
  obtain ⟨w, hw, hsame⟩ := h
  have hne : before ≠ [] := List.ne_nil_of_mem hw
  have hfirst : firstBlank? (before ++ v :: after) = firstBlank? (before ++ after) := by
    rw [firstBlank?, firstBlank?, List.find?_append, List.find?_append, List.find?_cons, ← hsame]
    cases hblank : (strip w).isEmpty with
    | false => rfl
    | true =>
      -- then the spelling before it is to blame, or one before that
      have hsome : (before.find? fun u => (strip u).isEmpty).isSome = true :=
        List.find?_isSome.mpr ⟨w, hw, hblank⟩
      obtain ⟨u, hu⟩ := Option.isSome_iff_exists.mp hsome
      rw [hu]
      rfl
  have hkept : ((before ++ v :: after).map strip).eraseDups =
      ((before ++ after).map strip).eraseDups := by
    rw [List.map_append, List.map_cons, List.map_append]
    exact eraseDups_append_cons (hsame ▸ List.mem_map_of_mem hw)
  rw [normalize_eq, normalize_eq, if_neg (by simp), if_neg (by simp [hne]), hfirst, hkept]

/-- **What is made of a list of extensions.** It is refused if it is empty, or if nothing is left of
one of them when it is stripped; the report names the first such, as it is written. Otherwise each
is stripped, and of several that are then the same the first is kept: the result has no repetitions,
the members of the stripped list, and their order by first occurrence. So a further spelling of an
extension, anywhere behind it, does not change what becomes of the list. -/
theorem normalize_decides (ws : List String) :
    ((∃ fault, normalize ws = .error fault) ↔ ws = [] ∨ ∃ w ∈ ws, strip w = "") ∧
    ((normalize ws = .error .none ↔ ws = []) ∧
      ∀ w, normalize ws = .error (.blank w) ↔
        ∃ before after, ws = before ++ w :: after ∧ strip w = "" ∧ ∀ v ∈ before, strip v ≠ "") ∧
    (∀ fault, (Failure.badExtensions fault).report.code = .invalidValue ∧
      (Failure.badExtensions fault).report.detail? "value" =
        match fault with
        | .none => none
        | .blank w => some w) ∧
    (∀ result, normalize ws = .ok result ↔
      (ws ≠ [] ∧ ∀ w ∈ ws, strip w ≠ "") ∧ result = (ws.map strip).eraseDups) ∧
    ((ws.map strip).eraseDups.Nodup ∧
      (∀ e, e ∈ (ws.map strip).eraseDups ↔ ∃ w ∈ ws, strip w = e) ∧
      (ws.map strip).eraseDups.Pairwise fun a b =>
        (ws.map strip).idxOf a < (ws.map strip).idxOf b) ∧
    ∀ before after v, ws = before ++ after → (∃ w ∈ before, strip w = strip v) →
      normalize (before ++ v :: after) = normalize ws := by
  refine ⟨exists_error_iff, ⟨normalize_eq_none, fun w => ?_⟩, fun fault => ?_,
    fun result => normalize_eq_ok, ⟨nodup_eraseDups _, fun e => ?_, pairwise_eraseDups _⟩, ?_⟩
  · rw [normalize_eq_blank, firstBlank?_eq_some]
  · cases fault with
    | none => exact ⟨rfl, rfl⟩
    | blank w => exact ⟨rfl, rfl⟩
  · rw [List.mem_eraseDups, List.mem_map]
  · rintro before after v rfl hspelling
    exact normalize_append_cons hspelling

example : normalize [" .dart", "txt", "dart "] = .ok ["dart", "txt"] := by decide

example : normalize ["dart", ". ", ""] = .error (.blank ". ") := by decide

end OpacityMigration.Extension
