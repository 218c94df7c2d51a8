import OpacityMigration.Call.Occurrence
import OpacityMigration.Call.Rewrite
import OpacityMigration.Proofs.Utf8

/-!
# Finding and rewriting calls

`find` and `rewrite` go through a text in the same way, call by call and else character by
character (`callwise`), so what one lists is what the other replaces. The comparison is made on
bytes: `replaceRange` puts the modern call in the place of one occurrence, and replacing from the
last occurrence to the first leaves the ranges of the earlier ones valid.

* `length_find`: as many occurrences are found as calls are rewritten.
* `find_ordered`, `find_inside`: occurrences follow one another and lie in the text.
* `encode_rewrite`: the rewritten text is the text with each occurrence replaced.
* `size_rewrite`, `rewrite_content_eq_self`: every call that is rewritten adds six bytes, so the
  text stays the same exactly if it has no call.
-/

namespace OpacityMigration.Call

open Utf8

/-! ## Going through a text -/

/-- Induction along the calls of a text, and the characters that start no call. -/
@[elab_as_elim]
theorem callwise {motive : List Char → Prop} (text : List Char) (nil : motive [])
    (call : ∀ argument rest, read? (deprecated argument ++ rest) = some (argument, rest) →
      motive rest → motive (deprecated argument ++ rest))
    (char : ∀ c rest, read? (c :: rest) = none → motive rest → motive (c :: rest)) :
    motive text := by
  induction hn : text.length using Nat.strongRecOn generalizing text with
  | ind n ih =>
    cases h : read? text with
    | some found =>
      obtain ⟨argument, rest⟩ := found
      have hlen := length_of_read? h
      obtain ⟨rfl, -, -⟩ := read?_eq_some.mp h
      exact call argument rest h (ih rest.length (by omega) rest rfl)
    | none =>
      cases text with
      | nil => exact nil
      | cons c rest => exact char c rest h (ih rest.length (by simp [← hn]) rest rfl)

theorem length_find (text : List Char) : (find text).length = (rewrite text).replacements := by
  induction text using callwise with
  | nil => simp
  | call argument rest h ih => simp [find_of_read? h, rewrite_of_read? h, ih]
  | char c rest h ih => simp [find_cons h, rewrite_cons h, ih]

/-! ## The ranges of the occurrences -/

theorem pairwise_shift {os : List Occurrence} (n : Nat)
    (h : os.Pairwise fun o o' => o.stop ≤ o'.start) :
    (os.map (Occurrence.shift n)).Pairwise fun o o' => o.stop ≤ o'.start := by
  rw [List.pairwise_map]
  exact h.imp fun hle => Nat.add_le_add_right hle n

/-- No occurrence starts before the one in front of it has stopped. -/
theorem find_ordered (text : List Char) :
    (find text).Pairwise fun o o' => o.stop ≤ o'.start := by
  induction text using callwise with
  | nil => simp
  | call argument rest h ih =>
    rw [find_of_read? h]
    refine List.Pairwise.cons ?_ (pairwise_shift _ ih)
    intro o ho
    obtain ⟨o', -, rfl⟩ := List.mem_map.mp ho
    simp [Occurrence.ofArgument, Occurrence.shift]
  | char c rest h ih =>
    rw [find_cons h]
    exact pairwise_shift _ ih

theorem size_pos_of_deprecated (argument : List Char) : 0 < size (deprecated argument) := by
  have : size opening = 13 := by decide
  simp only [deprecated, size_append, this]
  omega

/-- Every occurrence takes up a range of bytes of the text. -/
theorem find_inside {text : List Char} {o : Occurrence} (h : o ∈ find text) :
    o.start < o.stop ∧ o.stop ≤ size text := by
  induction text using callwise generalizing o with
  | nil => simp at h
  | call argument rest hr ih =>
    rw [find_of_read? hr] at h
    rcases List.mem_cons.mp h with rfl | h
    · have := size_pos_of_deprecated argument
      simp only [Occurrence.ofArgument, size_append]
      omega
    · obtain ⟨o', ho', rfl⟩ := List.mem_map.mp h
      have := ih ho'
      simp only [Occurrence.shift, size_append]
      omega
  | char c rest hr ih =>
    rw [find_cons hr] at h
    obtain ⟨o', ho', rfl⟩ := List.mem_map.mp h
    have := ih ho'
    simp only [Occurrence.shift, size_cons]
    omega

/-! ## Replacing ranges of bytes -/

/-- The bytes with those of one occurrence replaced. -/
def replaceRange (o : Occurrence) (bytes : List UInt8) : List UInt8 :=
  bytes.take o.start ++ encode o.replacement ++ bytes.drop o.stop

theorem replaceRange_shift (o : Occurrence) (front bytes : List UInt8) :
    replaceRange (o.shift front.length) (front ++ bytes) = front ++ replaceRange o bytes := by
  have htake : ∀ n, (front ++ bytes).take (n + front.length) = front ++ bytes.take n := fun n => by
    rw [Nat.add_comm, List.take_length_add_append]
  have hdrop : ∀ n, (front ++ bytes).drop (n + front.length) = bytes.drop n := fun n => by
    rw [Nat.add_comm, List.drop_length_add_append]
  simp only [replaceRange, Occurrence.shift, htake, hdrop, List.append_assoc]

theorem foldr_replaceRange_shift (os : List Occurrence) (front bytes : List UInt8) :
    (os.map (Occurrence.shift front.length)).foldr replaceRange (front ++ bytes) =
      front ++ os.foldr replaceRange bytes := by
  induction os with
  | nil => rfl
  | cons o os ih => rw [List.map_cons, List.foldr_cons, ih, replaceRange_shift, List.foldr_cons]

/-- A pass replaces the range of each occurrence and keeps all other bytes. -/
theorem encode_rewrite (text : List Char) :
    encode (rewrite text).content = (find text).foldr replaceRange (encode text) := by
  induction text using callwise with
  | nil => simp
  | call argument rest h ih =>
    rw [find_of_read? h, rewrite_of_read? h, List.foldr_cons, encode_append, encode_append,
      ← length_encode, foldr_replaceRange_shift, ← ih]
    simp [replaceRange, Occurrence.ofArgument, ← length_encode]
  | char c rest h ih =>
    rw [find_cons h, rewrite_cons h, encode_cons, encode_cons, ← length_encodeChar,
      foldr_replaceRange_shift, ← ih]

/-! ## What a pass adds -/

/-- The modern call with an argument is six bytes longer than the deprecated one. -/
theorem size_modern (argument : List Char) :
    size (modern argument) = size (deprecated argument) + 6 := by
  have : size modernOpening = size opening + 6 := by decide
  simp only [modern, deprecated, size_append, this]
  omega

theorem size_rewrite (text : List Char) :
    size (rewrite text).content = size text + 6 * (find text).length := by
  induction text using callwise with
  | nil => simp
  | call argument rest h ih =>
    rw [find_of_read? h, rewrite_of_read? h, size_append, size_append, ih, size_modern,
      List.length_cons, List.length_map]
    omega
  | char c rest h ih =>
    rw [find_cons h, rewrite_cons h, size_cons, size_cons, ih, List.length_map]
    omega

/-- A pass keeps a text exactly if there is no call in it. -/
theorem rewrite_content_eq_self {text : List Char} :
    (rewrite text).content = text ↔ find text = [] := by
  constructor
  · intro h
    have hsize := size_rewrite text
    rw [h] at hsize
    exact List.length_eq_zero_iff.mp (by omega)
  · intro h
    apply encode_injective
    rw [encode_rewrite, h, List.foldr_nil]

end OpacityMigration.Call
