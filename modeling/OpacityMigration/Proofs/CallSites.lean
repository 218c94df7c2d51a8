import OpacityMigration.Proofs.Occurrences
import Mathlib.Logic.ExistsUnique

/-!
# Every call is found

The search goes on after each call that it has found, so a call that starts inside the argument of
another one is not listed. No other call is left out: where the search moves on by one character, no
call starts at that character.

* `isCallOf_of_mem_find`: what is listed is a call of the text, at its bytes.
* `covered_of_append`: every call of the text starts in an occurrence, and by `eq_of_covers` in one
  only.
* `find_sound_complete` puts these together.
-/

namespace OpacityMigration.Call

open Utf8

/-! ## What is listed -/

/-- The occurrence stands in the text at its bytes, and is a call beside its modern form. -/
def Occurrence.IsCallOf (o : Occurrence) (text : List Char) : Prop :=
  ∃ before argument after, text = before ++ o.matched ++ after ∧
    o.start = size before ∧ o.stop = size (before ++ o.matched) ∧
    argument ≠ [] ∧ ')' ∉ argument ∧
    o.matched = opening ++ argument ++ [')'] ∧
    o.replacement = modernOpening ++ argument ++ [')']

theorem Occurrence.IsCallOf.shift {o : Occurrence} {text : List Char} (h : o.IsCallOf text)
    (front : List Char) : (o.shift (size front)).IsCallOf (front ++ text) := by
  obtain ⟨before, argument, after, htext, hstart, hstop, hne, harg, hmatched, hmodern⟩ := h
  refine ⟨front ++ before, argument, after, ?_, ?_, ?_, hne, harg, hmatched, hmodern⟩
  · simp only [htext, Occurrence.shift, List.append_assoc]
  · show o.start + size front = size (front ++ before)
    rw [size_append, hstart, Nat.add_comm]
  · show o.stop + size front = size (front ++ before ++ o.matched)
    rw [List.append_assoc, size_append, hstop, Nat.add_comm]

theorem isCallOf_of_mem_find {text : List Char} {o : Occurrence} (h : o ∈ find text) :
    o.IsCallOf text := by
  induction text using callwise generalizing o with
  | nil => simp at h
  | call argument rest hr ih =>
    rw [find_of_read? hr] at h
    rcases List.mem_cons.mp h with rfl | h
    · obtain ⟨-, hne, harg⟩ := read?_eq_some.mp hr
      refine ⟨[], argument, rest, rfl, rfl, ?_, hne, harg, rfl, rfl⟩
      simp [Occurrence.ofArgument]
    · obtain ⟨o', ho', rfl⟩ := List.mem_map.mp h
      exact (ih ho').shift (deprecated argument)
  | char c rest hr ih =>
    rw [find_cons hr] at h
    obtain ⟨o', ho', rfl⟩ := List.mem_map.mp h
    exact (ih ho').shift [c]

/-- The occurrences come in the order of their first bytes, and none starts inside another. -/
theorem find_increasing (text : List Char) :
    (find text).Pairwise fun o o' => o.start < o'.start ∧ o.stop ≤ o'.start := by
  refine (find_ordered text).imp_of_mem ?_
  intro o o' ho _ hle
  have := (find_inside ho).1
  omega

/-! ## What is covered -/

/-- Byte `p` is one of those that the occurrence takes up. -/
def Occurrence.Covers (o : Occurrence) (p : Nat) : Prop :=
  o.start ≤ p ∧ p < o.stop

theorem Occurrence.Covers.shift {o : Occurrence} {p : Nat} (h : o.Covers p) (n : Nat) :
    (o.shift n).Covers (n + p) := by
  obtain ⟨hstart, hstop⟩ := h
  simp only [Occurrence.Covers, Occurrence.shift]
  omega

theorem eq_of_covers {text : List Char} {o o' : Occurrence} {p : Nat} (ho : o ∈ find text)
    (ho' : o' ∈ find text) (hp : o.Covers p) (hp' : o'.Covers p) : o = o' := by
  obtain ⟨i, hi, rfl⟩ := List.mem_iff_getElem.mp ho
  obtain ⟨j, hj, rfl⟩ := List.mem_iff_getElem.mp ho'
  have hordered := List.pairwise_iff_getElem.mp (find_ordered text)
  simp only [Occurrence.Covers] at hp hp'
  rcases Nat.lt_trichotomy i j with hlt | rfl | hlt
  · have := hordered i j hi hj hlt
    omega
  · rfl
  · have := hordered j i hj hi hlt
    omega

/-- Every call of the text starts in an occurrence. -/
theorem covered_of_append {argument : List Char} (hne : argument ≠ []) (harg : ')' ∉ argument)
    (before after : List Char) :
    ∃ o ∈ find (before ++ (deprecated argument ++ after)), o.Covers (size before) := by
  generalize htext : before ++ (deprecated argument ++ after) = text
  induction text using callwise generalizing before with
  | nil => simp [deprecated] at htext
  | call found rest hr ih =>
    rw [find_of_read? hr]
    by_cases hin : size before < size (deprecated found)
    · exact ⟨_, List.mem_cons_self, by simp [Occurrence.Covers, Occurrence.ofArgument, hin]⟩
    -- a call that starts later starts in what the search goes on with
    obtain ⟨between, rfl, hrest⟩ : ∃ between, before = deprecated found ++ between ∧
        rest = between ++ (deprecated argument ++ after) := by
      rcases List.append_eq_append_iff.mp htext with ⟨inside, hinside, hrest⟩ | h
      · cases inside with
        | nil => exact ⟨[], by simp [hinside], by simpa using hrest.symm⟩
        | cons c inside =>
          have := c.utf8Size_pos
          rw [hinside, size_append, size_cons] at hin
          omega
      · exact h
    obtain ⟨o, ho, hcovers⟩ := ih between hrest.symm
    refine ⟨o.shift _, List.mem_cons_of_mem _ (List.mem_map_of_mem ho), ?_⟩
    rw [size_append]
    exact hcovers.shift _
  | char c rest hr ih =>
    cases before with
    | nil =>
      rw [← htext, List.nil_append, read?_deprecated hne harg] at hr
      cases hr
    | cons d before =>
      obtain ⟨rfl, hrest⟩ := List.cons.inj htext
      obtain ⟨o, ho, hcovers⟩ := ih before hrest
      rw [find_cons hr]
      exact ⟨o.shift _, List.mem_map_of_mem ho, hcovers.shift _⟩

/-- The bytes of the text go on with a deprecated call at byte `p`. -/
def CallAt (text : List Char) (p : Nat) : Prop :=
  ∃ argument, argument ≠ [] ∧ ')' ∉ argument ∧
    encode (opening ++ argument ++ [')']) <+: (encode text).drop p

theorem CallAt.covered {text : List Char} {p : Nat} (h : CallAt text p) :
    ∃ o ∈ find text, o.Covers p := by
  obtain ⟨argument, hne, harg, hbytes⟩ := h
  obtain ⟨before, after, rfl, rfl⟩ := exists_of_encode_drop hbytes
  exact covered_of_append hne harg before after

/-- **The calls that are found.** They come in the order of their bytes and none starts inside
another. Each is a call of the text, at its bytes, with the modern call that has the same argument.
Where any call of the text starts, either exactly one of them starts, or one of them goes on. -/
theorem find_sound_complete (text : List Char) :
    ((find text).Pairwise fun o o' => o.start < o'.start ∧ o.stop ≤ o'.start) ∧
      (∀ o ∈ find text, o.IsCallOf text) ∧
      ∀ p, CallAt text p →
        Xor (∃! o, o ∈ find text ∧ o.start = p) (∃ o ∈ find text, o.start < p ∧ p < o.stop) := by
  refine ⟨find_increasing text, fun o => isCallOf_of_mem_find, ?_⟩
  intro p hcall
  obtain ⟨o, ho, hcovers⟩ := hcall.covered
  have hunique : ∀ o' ∈ find text, o'.Covers p → o' = o :=
    fun o' ho' hp' => eq_of_covers ho' ho hp' hcovers
  have hstarts : ∀ o' ∈ find text, o'.start = p → o' = o := by
    intro o' ho' hp
    have := (find_inside ho').1
    exact hunique o' ho' ⟨by omega, by omega⟩
  rcases Nat.eq_or_lt_of_le hcovers.1 with hstart | hlt
  · refine .inl ⟨⟨o, ⟨ho, hstart⟩, fun o' h => hstarts o' h.1 h.2⟩, ?_⟩
    rintro ⟨o', ho', hbefore, hstop⟩
    obtain rfl := hunique o' ho' ⟨by omega, hstop⟩
    omega
  · refine .inr ⟨⟨o, ho, hlt, hcovers.2⟩, ?_⟩
    rintro ⟨o', ⟨ho', hstart⟩, -⟩
    obtain rfl := hstarts o' ho' hstart
    omega

/-- A call in the argument of another one is in the text, and is not listed. -/
theorem find_sound_complete_nested :
    CallAt ".withOpacity(.withOpacity(é))".toList 13 ∧
      Xor (∃! o, o ∈ find ".withOpacity(.withOpacity(é))".toList ∧ o.start = 13)
        (∃ o ∈ find ".withOpacity(.withOpacity(é))".toList, o.start < 13 ∧ 13 < o.stop) := by
  have hcall : CallAt ".withOpacity(.withOpacity(é))".toList 13 :=
    ⟨['é'], by decide, by decide, by decide⟩
  exact ⟨hcall, (find_sound_complete ".withOpacity(.withOpacity(é))".toList).2.2 13 hcall⟩

end OpacityMigration.Call
