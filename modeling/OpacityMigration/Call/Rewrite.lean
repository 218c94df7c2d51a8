import OpacityMigration.Call.Basic

/-!
# Rewriting a text

`rewrite` goes through a text once, from left to right. Where a deprecated call starts it writes the
modern call and goes on after the call; elsewhere it keeps one character. A call inside the
argument of another is therefore part of that argument and is not rewritten by this pass.

* `rewrite_of_read?`, `rewrite_cons`, `rewrite_nil` are the three equations of the pass.
-/

namespace OpacityMigration.Call

structure Rewrite where
  content : List Char
  replacements : Nat
deriving DecidableEq, Repr

def Rewrite.changed (r : Rewrite) : Bool :=
  r.replacements > 0

/-- Rewrites `text` after `done`, the content so far in reverse, with `count` calls in it. -/
def rewriteFrom (done : List Char) (count : Nat) (text : List Char) : Rewrite :=
  match _h : read? text with
  | some (argument, rest) => rewriteFrom ((modern argument).reverse ++ done) (count + 1) rest
  | none =>
    match text with
    | [] => ⟨done.reverse, count⟩
    | c :: rest => rewriteFrom (c :: done) count rest
termination_by text.length
decreasing_by
  · have := length_of_read? _h
    omega
  · simp

/-- Rewrites the deprecated calls of `text`, leftmost first and none inside another. -/
def rewrite (text : List Char) : Rewrite :=
  rewriteFrom [] 0 text

theorem rewriteFrom_of_read? (done : List Char) (count : Nat) {text argument rest : List Char}
    (h : read? text = some (argument, rest)) :
    rewriteFrom done count text =
      rewriteFrom ((modern argument).reverse ++ done) (count + 1) rest := by
  rw [rewriteFrom]
  split <;> simp_all

theorem rewriteFrom_cons (done : List Char) (count : Nat) {c : Char} {rest : List Char}
    (h : read? (c :: rest) = none) :
    rewriteFrom done count (c :: rest) = rewriteFrom (c :: done) count rest := by
  rw [rewriteFrom]
  split
  · simp_all
  · rfl

@[simp] theorem rewriteFrom_nil (done : List Char) (count : Nat) :
    rewriteFrom done count [] = ⟨done.reverse, count⟩ := by
  rw [rewriteFrom]
  rfl

theorem rewriteFrom_eq (done : List Char) (count : Nat) (text : List Char) :
    rewriteFrom done count text =
      ⟨done.reverse ++ (rewrite text).content, count + (rewrite text).replacements⟩ := by
  induction hn : text.length using Nat.strongRecOn generalizing text done count with
  | ind n ih =>
    subst hn
    cases h : read? text with
    | some found =>
      obtain ⟨argument, rest⟩ := found
      have hrest : rest.length < text.length := by
        have := length_of_read? h
        omega
      rw [rewrite, rewriteFrom_of_read? _ _ h, rewriteFrom_of_read? _ _ h,
        ih _ hrest _ _ rest rfl, ih _ hrest ((modern argument).reverse ++ []) _ rest rfl]
      simp [Nat.add_assoc]
    | none =>
      cases text with
      | nil => simp [rewrite]
      | cons c rest =>
        rw [rewrite, rewriteFrom_cons _ _ h, rewriteFrom_cons _ _ h,
          ih _ (by simp) _ _ rest rfl, ih _ (by simp) [c] _ rest rfl]
        simp

theorem rewrite_of_read? {text argument rest : List Char}
    (h : read? text = some (argument, rest)) :
    rewrite text =
      ⟨modern argument ++ (rewrite rest).content, (rewrite rest).replacements + 1⟩ := by
  rw [rewrite, rewriteFrom_of_read? _ _ h, rewriteFrom_eq]
  simp [Nat.add_comm]

theorem rewrite_cons {c : Char} {rest : List Char} (h : read? (c :: rest) = none) :
    rewrite (c :: rest) = ⟨c :: (rewrite rest).content, (rewrite rest).replacements⟩ := by
  rw [rewrite, rewriteFrom_cons _ _ h, rewriteFrom_eq]
  simp

@[simp] theorem rewrite_nil : rewrite [] = ⟨[], 0⟩ := by
  simp [rewrite]

end OpacityMigration.Call
