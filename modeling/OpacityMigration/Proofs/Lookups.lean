import OpacityMigration.FileSystem.Basic
import Mathlib.Order.Basic

/-!
# Looking up the entries of a directory

The path of an entry is the path of its directory and one step more. So looking an entry up is
looking its directory up, links followed, and then one step more (`resolve_child`), and what comes
out depends on the node of the directory only: `nodeAt?_child` for the entry itself, `lookup_child`
for what it leads to. A look-up of an entry that succeeds shows that the directory can be looked up
and may be searched (`directory_of_lookup_child`).

* `resolveFrom_cons`: what a step of a look-up does, said once.
* `stepwise`: induction along the steps of a look-up, those of the targets of links included.
* `resolveFrom_append`: the steps of a look-up in two parts.
-/

namespace OpacityMigration

open OpacityMigration.Path (Step separator)

namespace Path

/-! ## The parts of a path -/

/-- What stands between the slashes of a path. -/
def parts (p : Path) : List (List UInt8) :=
  partsFrom [] p.bytes

theorem partsFrom_append (part a b : List UInt8) :
    partsFrom part (a ++ separator :: b) = partsFrom part a ++ partsFrom [] b := by
  induction a generalizing part with
  | nil => simp [partsFrom]
  | cons c a ih =>
    rw [List.cons_append, partsFrom, partsFrom]
    split
    · rw [ih, List.cons_append]
    · rw [ih]

theorem partsFrom_of_not_mem {part name : List UInt8} (h : separator ∉ name) :
    partsFrom part name = [part.reverse ++ name] := by
  induction name generalizing part with
  | nil => simp [partsFrom]
  | cons c name ih =>
    simp only [List.mem_cons, not_or] at h
    rw [partsFrom, if_neg (Ne.symm h.1), ih h.2]
    simp

theorem partsFrom_ne_nil (part bytes : List UInt8) : partsFrom part bytes ≠ [] := by
  induction bytes generalizing part with
  | nil => exact List.cons_ne_nil _ _
  | cons c bytes ih =>
    rw [partsFrom]
    split
    · exact List.cons_ne_nil _ _
    · exact ih _

end Path

namespace FileSystem

variable {fs : FileSystem} {root : Node} {d p : Path} {name : Name} {here there : Location}
  {followLast : Bool} {access : Access} {names : List Name} {child : Name → Node}

/-! ## The path of an entry -/

theorem bytes_child (hd : d.bytes ≠ []) :
    (d.child name).bytes =
      d.bytes ++ (if d.endsWithSeparator then [] else [separator]) ++ name := by
  cases hsep : d.endsWithSeparator <;> simp [Path.child, hd, hsep]

theorem length_lt_child (hd : d.bytes ≠ []) (hname : EntryName name) :
    d.bytes.length < (d.child name).bytes.length := by
  have hpos := List.length_pos_iff.mpr hname.ne_nil
  rw [bytes_child hd]
  simp only [List.length_append]
  omega

theorem child_ne_nil (hd : d.bytes ≠ []) (hname : EntryName name) : (d.child name).bytes ≠ [] :=
  List.length_pos_iff.mp (Nat.zero_lt_of_lt (length_lt_child hd hname))

theorem holdsNul_child (hd : d.bytes ≠ []) (hname : EntryName name) :
    (d.child name).holdsNul = d.holdsNul := by
  have hsep : (0 : UInt8) ∉ (if d.endsWithSeparator then [] else [separator]) := by
    split <;> decide
  simp only [Path.holdsNul, bytes_child hd, List.contains_eq_mem, List.mem_append, hsep,
    hname.no_nul, or_false]

theorem isAbsolute_child (hd : d.bytes ≠ []) : (d.child name).isAbsolute = d.isAbsolute := by
  obtain ⟨c, bytes, hbytes⟩ := List.exists_cons_of_ne_nil hd
  simp only [Path.isAbsolute, bytes_child hd, hbytes, List.cons_append, List.head?_cons]

theorem endsWithSeparator_child (hd : d.bytes ≠ []) (hname : EntryName name) :
    (d.child name).endsWithSeparator = false := by
  have hlast := List.getLast?_eq_some_getLast hname.ne_nil
  have hne : name.getLast hname.ne_nil ≠ separator := by
    intro heq
    exact hname.no_separator (heq ▸ List.getLast_mem hname.ne_nil)
  rw [Path.endsWithSeparator, bytes_child hd, List.getLast?_append, hlast, Option.some_or]
  simpa using hne

/-- The name of the entry is the last part of its path. A slash at the end of the path of the
directory is not doubled, so the empty part after it makes room for the name. -/
theorem parts_child (hd : d.bytes ≠ []) (hname : EntryName name) :
    ∃ front, front ≠ [] ∧ (d.child name).parts = front ++ [name] ∧
      d.parts = front ++ if d.endsWithSeparator then [[]] else [] := by
  by_cases hsep : d.endsWithSeparator = true
  · obtain ⟨a, ha⟩ : ∃ a, d.bytes = a ++ [separator] :=
      List.getLast?_eq_some_iff.mp (by simpa [Path.endsWithSeparator] using hsep)
    refine ⟨Path.partsFrom [] a, Path.partsFrom_ne_nil _ _, ?_, ?_⟩
    · rw [Path.parts, bytes_child hd, if_pos hsep, List.append_nil, ha, List.append_assoc,
        List.singleton_append, Path.partsFrom_append,
        Path.partsFrom_of_not_mem hname.no_separator]
      rfl
    · rw [if_pos hsep, Path.parts, ha, Path.partsFrom_append]
      rfl
  · refine ⟨d.parts, Path.partsFrom_ne_nil _ _, ?_, by rw [if_neg hsep, List.append_nil]⟩
    rw [Path.parts, bytes_child hd, if_neg hsep, List.append_assoc, List.singleton_append,
      Path.partsFrom_append, Path.partsFrom_of_not_mem hname.no_separator]
    rfl

/-- The steps of a path, but for the last one that a slash at its end asks for. -/
def wayTo (p : Path) : List Step :=
  p.parts.filterMap Path.step?

theorem steps_eq (p : Path) :
    p.steps = wayTo p ++ if p.endsWithSeparator then [.atDirectory] else [] := rfl

theorem steps_child (hd : d.bytes ≠ []) (hname : EntryName name) :
    (d.child name).steps = wayTo d ++ [.enter name] := by
  have hstep : Path.step? name = some (.enter name) := by
    rw [Path.step?, if_neg hname.ne_nil, if_neg hname.ne_here, if_neg hname.ne_above]
  obtain ⟨front, -, hchild, hfront⟩ := parts_child hd hname
  have hway : wayTo d = front.filterMap Path.step? := by
    rw [wayTo, hfront, List.filterMap_append]
    split <;> exact List.append_nil _
  rw [steps_eq, endsWithSeparator_child hd hname, if_neg Bool.false_ne_true, List.append_nil,
    wayTo, hchild, hway, List.filterMap_append, List.filterMap_cons, hstep]
  rfl

/-! ## Steps -/

/-- What one step comes to. -/
inductive StepEnd
  | refused (fault : Fault)
  | at (there : Location)
  /-- The step enters a link. -/
  | link (name : Name) (target : Path)

def stepFrom (root : Node) (here : Location) (step : Step) : StepEnd :=
  match root.find? here with
  | some (.directory access names child) =>
    if step = .atDirectory then .at here
    else if !access.search then .refused .permissionDenied
    else
      match step with
      | .up => .at here.dropLast
      | .enter name =>
        if maxName < name.length then .refused .nameTooLong
        else if names.contains name then
          match child name with
          | .link target => .link name target
          | _ => .at (here ++ [name])
        else .refused .notFound
      | _ => .at here
  | some _ => .refused .notDirectory
  | none => .refused .notFound

theorem resolveFrom_cons (root : Node) (followLast : Bool) (links : Nat) (here : Location)
    (step : Step) (rest : List Step) :
    resolveFrom root followLast links here (step :: rest) =
      match stepFrom root here step with
      | .refused fault => .error fault
      | .at there => resolveFrom root followLast links there rest
      | .link name target =>
        if rest.isEmpty && !followLast then .ok (here ++ [name])
        else
          match links with
          | 0 => .error .tooManyLinks
          | links + 1 =>
            resolveFrom root followLast links (if target.isAbsolute then [] else here)
              (target.steps ++ rest) := by
  rw [resolveFrom, stepFrom]
  rcases root.find? here with _ | ⟨id, access⟩ | ⟨access, names, child⟩ | target
  · rfl
  · rfl
  · simp only
    split
    · rfl
    · split
      · rfl
      · cases step with
        | enter name =>
          simp only
          split
          · rfl
          · by_cases hmem : name ∈ names
            · rw [if_pos hmem, if_pos (List.contains_iff_mem.mpr hmem)]
              cases child name with
              | link target => cases links <;> rfl
              | _ => rfl
            · rw [if_neg hmem, if_neg fun h => hmem (List.contains_iff_mem.mp h)]
        | _ => rfl
  · rfl

/-- Induction along the steps of a look-up. The steps of the target of a link count as well, while
there is a link less to follow. -/
@[elab_as_elim]
theorem stepwise (root : Node) {motive : Nat → Location → List Step → Prop}
    (links : Nat) (here : Location) (steps : List Step)
    (nil : ∀ links here, motive links here [])
    (refused : ∀ links here step rest fault, stepFrom root here step = .refused fault →
      motive links here (step :: rest))
    (goes : ∀ links here step rest there, stepFrom root here step = .at there →
      motive links there rest → motive links here (step :: rest))
    (link : ∀ links here step rest name target, stepFrom root here step = .link name target →
      (∀ fewer, links = fewer + 1 →
        motive fewer (if target.isAbsolute then [] else here) (target.steps ++ rest)) →
      motive links here (step :: rest)) :
    motive links here steps := by
  induction links using Nat.strongRecOn generalizing here steps with
  | ind links ihlinks =>
    induction steps generalizing here with
    | nil => exact nil links here
    | cons step rest ih =>
      cases h : stepFrom root here step with
      | refused fault => exact refused links here step rest fault h
      | «at» there => exact goes links here step rest there h (ih there)
      | link name target =>
        refine link links here step rest name target h ?_
        rintro fewer rfl
        exact ihlinks fewer (Nat.lt_succ_self fewer) _ _

/-- A look-up goes through the first steps, all links followed, and on from where these lead. -/
theorem resolveFrom_append (root : Node) (links : Nat) (here : Location) (steps : List Step) :
    (∃ fault, resolveFrom root true links here steps = .error fault ∧
      ∀ followLast more, more ≠ [] →
        resolveFrom root followLast links here (steps ++ more) = .error fault) ∨
    ∃ there left, resolveFrom root true links here steps = .ok there ∧
      ∀ followLast more, more ≠ [] →
        resolveFrom root followLast links here (steps ++ more) =
          resolveFrom root followLast left there more := by
  induction links, here, steps using stepwise root with
  | nil links here => exact Or.inr ⟨here, links, by rw [resolveFrom], fun _ _ _ => rfl⟩
  | refused links here step rest fault h =>
    refine Or.inl ⟨fault, by rw [resolveFrom_cons, h], fun followLast more _ => ?_⟩
    rw [List.cons_append, resolveFrom_cons, h]
  | goes links here step rest there h ih =>
    simp only [List.cons_append, resolveFrom_cons, h]
    exact ih
  | link links here step rest name target h ih =>
    -- with more steps to come, the link is not the last one and so is followed
    have hfollow : ∀ followLast (more : List Step), more ≠ [] →
        ((rest ++ more).isEmpty && !followLast) = false := by
      intro followLast more hmore
      simp [hmore]
    simp only [List.cons_append, resolveFrom_cons, h, Bool.not_true, Bool.and_false,
      Bool.false_eq_true, if_false]
    cases links with
    | zero =>
      refine Or.inl ⟨.tooManyLinks, rfl, fun followLast more hmore => ?_⟩
      rw [hfollow followLast more hmore]
      rfl
    | succ fewer =>
      rcases ih fewer rfl with ⟨fault, herror, hmore⟩ | ⟨there, left, hok, hmore⟩
      · refine Or.inl ⟨fault, herror, fun followLast more hne => ?_⟩
        rw [hfollow followLast more hne, if_neg Bool.false_ne_true, ← List.append_assoc]
        exact hmore followLast more hne
      · refine Or.inr ⟨there, left, hok, fun followLast more hne => ?_⟩
        rw [hfollow followLast more hne, if_neg Bool.false_ne_true, ← List.append_assoc]
        exact hmore followLast more hne

/-! ## Steps into a directory -/

theorem find?_append (node : Node) (here : Location) (name : Name) :
    node.find? (here ++ [name]) = (node.find? here).bind fun found => found.find? [name] := by
  induction here generalizing node with
  | nil => cases node <;> rfl
  | cons first here ih =>
    rcases node with ⟨id, access⟩ | ⟨access, names, child⟩ | target
    · rfl
    · rw [List.cons_append, Node.find?, Node.find?]
      split
      · exact ih (child first)
      · rfl
    · rfl

theorem find?_child (hdir : root.find? there = some (.directory access names child))
    (hmem : name ∈ names) : root.find? (there ++ [name]) = some (child name) := by
  rw [find?_append, hdir, Option.bind_some, Node.find?, if_pos hmem, Node.find?]

theorem resolveFrom_atDirectory {left : Nat} :
    resolveFrom root followLast left here [.atDirectory] = .ok there ↔
      there = here ∧
        ∃ access names child, root.find? here = some (.directory access names child) := by
  rw [resolveFrom_cons, stepFrom]
  rcases root.find? here with _ | ⟨id, access⟩ | ⟨access, names, child⟩ | target
  · simp
  · simp
  · simp [resolveFrom, eq_comm]
  · simp

theorem stepFrom_unsearchable (hdir : root.find? there = some (.directory access names child))
    (hsearch : access.search = false) :
    stepFrom root there (.enter name) = .refused .permissionDenied := by
  rw [stepFrom, hdir]
  simp [hsearch]

theorem stepFrom_absent (hdir : root.find? there = some (.directory access names child))
    (hsearch : access.search = true) (hname : EntryName name) (hmem : name ∉ names) :
    stepFrom root there (.enter name) = .refused .notFound := by
  rw [stepFrom, hdir]
  simp [hsearch, hmem, Nat.not_lt.mpr hname.short]

theorem stepFrom_link {target : Path}
    (hdir : root.find? there = some (.directory access names child))
    (hsearch : access.search = true) (hname : EntryName name) (hmem : name ∈ names)
    (hlink : child name = .link target) :
    stepFrom root there (.enter name) = .link name target := by
  rw [stepFrom, hdir]
  simp [hsearch, hmem, Nat.not_lt.mpr hname.short, hlink]

theorem stepFrom_node (hdir : root.find? there = some (.directory access names child))
    (hsearch : access.search = true) (hname : EntryName name) (hmem : name ∈ names)
    (hlink : ∀ target, child name ≠ .link target) :
    stepFrom root there (.enter name) = .at (there ++ [name]) := by
  rw [stepFrom, hdir]
  simp only [reduceCtorEq, if_false, hsearch, Bool.not_true, Bool.false_eq_true, hmem, if_true,
    Nat.not_lt.mpr hname.short, List.contains_iff_mem]

/-! ## Look-ups -/

/-- What a look-up needs to begin, which it does at `here`. -/
structure Begins (fs : FileSystem) (p : Path) (here : Location) : Prop where
  no_nul : p.holdsNul = false
  ne_nil : p.bytes ≠ []
  short : p.bytes.length ≤ maxPath
  start : (if p.isAbsolute then some [] else fs.workingDirectory) = some here

theorem Begins.resolve (h : Begins fs p here) :
    fs.resolve followLast p = resolveFrom fs.root followLast maxLinks here p.steps := by
  rw [FileSystem.resolve, h.no_nul, if_neg Bool.false_ne_true, if_neg (by simpa using h.ne_nil),
    if_neg (Nat.not_lt.mpr h.short), h.start]

theorem resolve_eq_ok :
    fs.resolve followLast p = .ok there ↔
      ∃ here, Begins fs p here ∧
        resolveFrom fs.root followLast maxLinks here p.steps = .ok there := by
  constructor
  · intro h
    unfold resolve at h
    split at h
    · cases h
    split at h
    · cases h
    split at h
    · cases h
    rename_i hnul hne hshort
    split at h
    · cases h
    rename_i here hstart
    exact ⟨here, ⟨by simpa using hnul, by simpa using hne, Nat.not_lt.mp hshort, hstart⟩, h⟩
  · rintro ⟨here, hbegins, h⟩
    rw [hbegins.resolve, h]

theorem lookup_eq_ok {node : Node} :
    fs.lookup p = .ok node ↔
      ∃ there, fs.resolve true p = .ok there ∧ fs.root.find? there = some node := by
  unfold lookup
  cases fs.resolve true p with
  | error fault => simp
  | ok there =>
    simp only [Except.ok.injEq, exists_eq_left']
    cases fs.root.find? there with
    | none => simp
    | some found => simp

theorem ne_nil_of_lookup {node : Node} (h : fs.lookup p = .ok node) : p.bytes ≠ [] := by
  obtain ⟨there, hresolve, -⟩ := lookup_eq_ok.mp h
  obtain ⟨here, hbegins, -⟩ := resolve_eq_ok.mp hresolve
  exact hbegins.ne_nil

theorem wellNamed_of_lookup {node : Node} (h : fs.lookup p = .ok node) : node.WellNamed := by
  obtain ⟨there, -, hfind⟩ := lookup_eq_ok.mp h
  exact fs.wellNamed.of_find? hfind

theorem Begins.entry (h : Begins fs d here) (hname : EntryName name)
    (hshort : (d.child name).bytes.length ≤ maxPath) : Begins fs (d.child name) here where
  no_nul := by rw [holdsNul_child h.ne_nil hname, h.no_nul]
  ne_nil := child_ne_nil h.ne_nil hname
  short := hshort
  start := by rw [isAbsolute_child h.ne_nil, h.start]

theorem Begins.of_entry (h : Begins fs (d.child name) here) (hd : d.bytes ≠ [])
    (hname : EntryName name) : Begins fs d here where
  no_nul := by rw [← holdsNul_child hd hname, h.no_nul]
  ne_nil := hd
  short := Nat.le_trans (Nat.le_of_lt (length_lt_child hd hname)) h.short
  start := by rw [← isAbsolute_child hd, h.start]

/-- Looking up an entry of a directory is looking up the directory and then one step more. -/
theorem resolve_child (h : fs.resolve true d = .ok there) :
    ∃ left, ∀ followLast name, EntryName name → (d.child name).bytes.length ≤ maxPath →
      fs.resolve followLast (d.child name) =
        resolveFrom fs.root followLast left there [.enter name] := by
  obtain ⟨here, hbegins, hresolve⟩ := resolve_eq_ok.mp h
  rw [steps_eq] at hresolve
  rcases resolveFrom_append fs.root maxLinks here (wayTo d) with
    ⟨fault, hway, hmore⟩ | ⟨there', left, hway, hmore⟩
  · split at hresolve
    · rw [hmore true _ (List.cons_ne_nil _ _)] at hresolve
      cases hresolve
    · rw [List.append_nil, hway] at hresolve
      cases hresolve
  have hthere : there = there' := by
    split at hresolve
    · rw [hmore true _ (List.cons_ne_nil _ _)] at hresolve
      exact (resolveFrom_atDirectory.mp hresolve).1
    · rw [List.append_nil, hway] at hresolve
      exact (Except.ok.inj hresolve).symm
  refine ⟨left, fun followLast name hname hshort => ?_⟩
  rw [(hbegins.entry hname hshort).resolve, steps_child hbegins.ne_nil hname, hthere]
  exact hmore followLast _ (List.cons_ne_nil _ _)

/-- An entry that can be resolved is in a directory that can be looked up. -/
theorem directory_of_resolve_child {loc : Location} (hd : d.bytes ≠ []) (hname : EntryName name)
    (h : fs.resolve followLast (d.child name) = .ok loc) :
    ∃ access names child, fs.lookup d = .ok (.directory access names child) := by
  obtain ⟨here, hbegins, hresolve⟩ := resolve_eq_ok.mp h
  rw [steps_child hd hname] at hresolve
  rcases resolveFrom_append fs.root maxLinks here (wayTo d) with
    ⟨fault, hway, hmore⟩ | ⟨there, left, hway, hmore⟩
  · rw [hmore followLast _ (List.cons_ne_nil _ _)] at hresolve
    cases hresolve
  rw [hmore followLast _ (List.cons_ne_nil _ _), resolveFrom_cons, stepFrom] at hresolve
  rcases hfind : fs.root.find? there with _ | ⟨id, access⟩ | ⟨access, names, child⟩ | target
  · rw [hfind] at hresolve
    cases hresolve
  · rw [hfind] at hresolve
    cases hresolve
  · refine ⟨access, names, child, lookup_eq_ok.mpr ⟨there, ?_, hfind⟩⟩
    rw [(hbegins.of_entry hd hname).resolve, steps_eq]
    split
    · rw [hmore true _ (List.cons_ne_nil _ _)]
      exact resolveFrom_atDirectory.mpr ⟨rfl, access, names, child, hfind⟩
    · rw [List.append_nil, hway]
  · rw [hfind] at hresolve
    cases hresolve

/-- A step into a directory that succeeds shows that the directory may be searched. -/
theorem search_of_resolveFrom {left : Nat} {loc : Location}
    (hdir : root.find? there = some (.directory access names child)) (hname : EntryName name)
    (h : resolveFrom root followLast left there [.enter name] = .ok loc) :
    access.search = true ∧ name ∈ names := by
  rw [resolveFrom_cons] at h
  by_cases hsearch : access.search = true
  · by_cases hmem : name ∈ names
    · exact ⟨hsearch, hmem⟩
    · rw [stepFrom_absent hdir hsearch hname hmem] at h
      cases h
  · rw [stepFrom_unsearchable hdir (Bool.eq_false_iff.mpr hsearch)] at h
    cases h

/-! ## Directories and their entries -/

/-- What the owner may do with the directory that a path leads to, and the names of its entries. -/
def directory? (fs : FileSystem) (p : Path) : Option (Access × List Name) :=
  match fs.lookup p with
  | .ok (.directory access names _) => some (access, names)
  | _ => none

/-- The node of an entry itself: a link is followed on the way to it, but not at its end. -/
def nodeAt? (fs : FileSystem) (p : Path) : Option Node :=
  match fs.resolve false p with
  | .ok there => fs.root.find? there
  | .error _ => none

/-- Whether an entry is a directory, and not a link to one. A look-up that fails shows none. -/
def isRealDirectory (fs : FileSystem) (p : Path) : Bool :=
  (fs.nodeAt? p).any Node.isDirectory

theorem isFile_eq_true : fs.isFile p = true ↔ ∃ id access, fs.lookup p = .ok (.file id access) := by
  unfold isFile
  rcases fs.lookup p with fault | ⟨id, access⟩ | ⟨access, names, child⟩ | target
  · simp
  · simp [Node.isFile]
  · simp [Node.isFile]
  · simp [Node.isFile]

theorem directory?_eq_some :
    fs.directory? p = some (access, names) ↔
      ∃ child, fs.lookup p = .ok (.directory access names child) := by
  unfold directory?
  rcases fs.lookup p with fault | ⟨id, access⟩ | ⟨access, names, child⟩ | target
  · simp
  · simp
  · simp
  · simp

/-- An entry that is looked up without following it is there if its directory may be searched. -/
theorem nodeAt?_child (h : fs.lookup d = .ok (.directory access names child))
    (hname : EntryName name) :
    fs.nodeAt? (d.child name) =
      if access.search = true ∧ (d.child name).bytes.length ≤ maxPath ∧ name ∈ names then
        some (child name)
      else none := by
  obtain ⟨there, hresolve, hdir⟩ := lookup_eq_ok.mp h
  obtain ⟨left, hstep⟩ := resolve_child hresolve
  split
  · rename_i hall
    obtain ⟨hsearch, hshort, hmem⟩ := hall
    have hfound : fs.resolve false (d.child name) = .ok (there ++ [name]) := by
      rw [hstep false name hname hshort, resolveFrom_cons]
      by_cases hlink : ∃ target, child name = .link target
      · obtain ⟨target, hlink⟩ := hlink
        rw [stepFrom_link hdir hsearch hname hmem hlink]
        rfl
      · rw [stepFrom_node hdir hsearch hname hmem fun target h => hlink ⟨target, h⟩]
        simp only [resolveFrom]
    rw [nodeAt?, hfound]
    exact find?_child hdir hmem
  · rename_i hnot
    rw [nodeAt?]
    cases hfail : fs.resolve false (d.child name) with
    | error fault => rfl
    | ok loc =>
      obtain ⟨here, hbegins, -⟩ := resolve_eq_ok.mp hfail
      rw [hstep false name hname hbegins.short] at hfail
      obtain ⟨hsearch, hmem⟩ := search_of_resolveFrom hdir hname hfail
      exact absurd ⟨hsearch, hbegins.short, hmem⟩ hnot

/-- The path of an entry that is no link leads to the entry. -/
theorem lookup_child (h : fs.lookup d = .ok (.directory access names child))
    (hname : EntryName name) (hsearch : access.search = true)
    (hshort : (d.child name).bytes.length ≤ maxPath) (hmem : name ∈ names)
    (hlink : ∀ target, child name ≠ .link target) :
    fs.lookup (d.child name) = .ok (child name) := by
  obtain ⟨there, hresolve, hdir⟩ := lookup_eq_ok.mp h
  obtain ⟨left, hstep⟩ := resolve_child hresolve
  refine lookup_eq_ok.mpr ⟨there ++ [name], ?_, find?_child hdir hmem⟩
  rw [hstep true name hname hshort, resolveFrom_cons,
    stepFrom_node hdir hsearch hname hmem hlink]
  simp only [resolveFrom]

/-- A look-up of an entry that succeeds shows what its directory allows. -/
theorem directory_of_lookup_child {node : Node} (hd : d.bytes ≠ []) (hname : EntryName name)
    (h : fs.lookup (d.child name) = .ok node) :
    ∃ access names child, fs.lookup d = .ok (.directory access names child) ∧
      access.search = true ∧ (d.child name).bytes.length ≤ maxPath ∧ name ∈ names := by
  obtain ⟨loc, hresolve, -⟩ := lookup_eq_ok.mp h
  obtain ⟨access, names, child, hlookup⟩ := directory_of_resolve_child hd hname hresolve
  obtain ⟨there, hresolve', hdir⟩ := lookup_eq_ok.mp hlookup
  obtain ⟨here, hbegins, -⟩ := resolve_eq_ok.mp hresolve
  obtain ⟨left, hstep⟩ := resolve_child hresolve'
  rw [hstep true name hname hbegins.short] at hresolve
  obtain ⟨hsearch, hmem⟩ := search_of_resolveFrom hdir hname hresolve
  exact ⟨access, names, child, hlookup, hsearch, hbegins.short, hmem⟩

theorem allows_of_lookup_child {node : Node} (h : fs.lookup d = .ok (.directory access names child))
    (hname : EntryName name) (hentry : fs.lookup (d.child name) = .ok node) :
    access.search = true ∧ (d.child name).bytes.length ≤ maxPath ∧ name ∈ names := by
  obtain ⟨access', names', child', h', hallows⟩ :=
    directory_of_lookup_child (ne_nil_of_lookup h) hname hentry
  rw [h] at h'
  cases h'
  exact hallows

end FileSystem

end OpacityMigration
