import OpacityMigration.Proofs.Lookups
import Mathlib.Data.List.Lex

/-!
# The order of paths

Paths are ordered component by component, so all that lies below `a` comes before `a.dart`, although
`/` is a greater byte than `.`. Slashes in a row and a dot between slashes make no component.

* `mem_ordered`, `pairwise_ordered`: `ordered` puts the names of a directory in ascending order.
* `components_child`: the name of an entry is one component more than its directory has.
* `before_of_lt`: what lies below a smaller name comes first.
-/

namespace OpacityMigration

/-! ## Names in order -/

variable {a name : Name} {names : List Name}

theorem mem_insertName : a ∈ insertName name names ↔ a = name ∨ a ∈ names := by
  induction names with
  | nil => simp [insertName]
  | cons other names ih =>
    rw [insertName]
    split
    · exact List.mem_cons
    · split
      · rw [List.mem_cons, ih, List.mem_cons]
        exact or_left_comm
      · rename_i hlt hgt
        have heq : name = other :=
          List.le_antisymm (List.not_lt.mp hgt) (List.not_lt.mp hlt)
        rw [heq, List.mem_cons, or_self_left]

theorem pairwise_insertName (h : names.Pairwise (· < ·)) :
    (insertName name names).Pairwise (· < ·) := by
  induction names with
  | nil => exact List.pairwise_singleton _ _
  | cons other names ih =>
    obtain ⟨hother, hnames⟩ := List.pairwise_cons.mp h
    rw [insertName]
    split
    · rename_i hlt
      refine List.pairwise_cons.mpr ⟨?_, h⟩
      intro a ha
      rcases List.mem_cons.mp ha with rfl | ha
      · exact hlt
      · exact List.lt_trans hlt (hother a ha)
    · split
      · rename_i hgt
        refine List.pairwise_cons.mpr ⟨?_, ih hnames⟩
        intro a ha
        rcases mem_insertName.mp ha with rfl | ha
        · exact hgt
        · exact hother a ha
      · exact h

theorem mem_ordered : a ∈ ordered names ↔ a ∈ names := by
  induction names with
  | nil => rfl
  | cons name names ih =>
    change a ∈ insertName name (ordered names) ↔ _
    rw [mem_insertName, ih, List.mem_cons]

theorem pairwise_ordered (names : List Name) : (ordered names).Pairwise (· < ·) := by
  induction names with
  | nil => exact List.Pairwise.nil
  | cons name names ih => exact pairwise_insertName ih

namespace Path

/-! ## Components -/

inductive Component
  /-- The root of the tree, with which an absolute path starts. -/
  | root
  /-- A dot with which a path starts. -/
  | here
  | above
  | normal (name : Name)
deriving DecidableEq, Repr

namespace Component

def rank : Component → Nat
  | .root => 0
  | .here => 1
  | .above => 2
  | .normal _ => 3

/-- Names are in the order of their bytes, and after the other components. -/
def Before : Component → Component → Prop
  | .normal a, .normal b => a < b
  | c, c' => c.rank < c'.rank

theorem not_before_self (c : Component) : ¬ c.Before c := by
  cases c with
  | normal name => exact List.lt_irrefl name
  | _ => exact Nat.lt_irrefl _

end Component

def component? (part : List UInt8) : Option Component :=
  if part = [] ∨ part = [0x2E] then none
  else if part = [0x2E, 0x2E] then some .above
  else some (.normal part)

/-- What a path starts with before its names. -/
def start? (p : Path) : Option Component :=
  if p.isAbsolute then some .root
  else if p.parts.head? = some [0x2E] then some .here
  else none

def components (p : Path) : List Component :=
  p.start?.toList ++ p.parts.filterMap component?

/-- The order of paths: that of their components, the first that differ deciding. -/
def Before (p q : Path) : Prop :=
  List.Lex Component.Before p.components q.components

theorem not_before_self (p : Path) : ¬ p.Before p :=
  List.lex_irrefl Component.not_before_self _

theorem components_child {d : Path} (hd : d.bytes ≠ []) (hname : FileSystem.EntryName name) :
    (d.child name).components = d.components ++ [.normal name] := by
  obtain ⟨front, hne, hchild, hfront⟩ := FileSystem.parts_child hd hname
  have hhead : (d.child name).parts.head? = d.parts.head? := by
    obtain ⟨part, front, rfl⟩ := List.exists_cons_of_ne_nil hne
    rw [hchild, hfront, List.cons_append, List.head?_cons, List.cons_append, List.head?_cons]
  have hstart : (d.child name).start? = d.start? := by
    rw [start?, start?, FileSystem.isAbsolute_child hd, hhead]
  have hcomponent : component? name = some (.normal name) := by
    rw [component?, if_neg (not_or.mpr ⟨hname.ne_nil, hname.ne_here⟩), if_neg hname.ne_above]
  have hparts : d.parts.filterMap component? = front.filterMap component? := by
    rw [hfront, List.filterMap_append]
    split <;> exact List.append_nil _
  rw [components, components, hstart, hparts, hchild, List.filterMap_append,
    List.filterMap_cons, hcomponent, List.append_assoc]
  rfl

/-- What lies below, or is, an entry with a smaller name comes before what lies below, or is, one
with a greater name. -/
theorem before_of_lt {d p q : Path} {b : Name} (hd : d.bytes ≠ []) (ha : FileSystem.EntryName a)
    (hb : FileSystem.EntryName b) (hlt : a < b) (hp : (d.child a).components <+: p.components)
    (hq : (d.child b).components <+: q.components) : p.Before q := by
  obtain ⟨below, hp⟩ := hp
  obtain ⟨below', hq⟩ := hq
  have hbefore : (Component.normal a).Before (.normal b) := hlt
  rw [Before, ← hp, ← hq, components_child hd ha, components_child hd hb, List.append_assoc,
    List.append_assoc]
  exact List.Lex.append_left _ (List.Lex.rel hbefore) _

end Path

end OpacityMigration
