import OpacityMigration.Text.Utf8
import Mathlib.Data.List.Basic

/-!
# Reading UTF-8 back

Bytes are read as a text exactly if they are what that text is written as, so a text has one form in
bytes and every form is read. `Form` lists the four forms of a character, with one, two, three or
four bytes. The two directions of the reading are `Form.firstPiece_append`, with `encodeChar_form`,
and `form_of_firstPiece`, with `Form.encodeChar_ofNat`.

* `decode?_eq_some`: `decode?` gives `text` exactly on `encode text`.
* `length_encode`: `size` counts the bytes of a text.
* `eq_append_of_encode`: where a text ends in the bytes of another one, it ends in that one.
* `exists_of_encode_drop`: where its bytes go on with those of another one, it goes on with that
  one.
-/

namespace OpacityMigration.Utf8

/-! ## Bytes as numbers -/

theorem isContinuation_iff {b : UInt8} :
    isContinuation b = true ↔ 0x80 ≤ b.toNat ∧ b.toNat ≤ 0xBF := by
  simp [isContinuation, UInt8.le_iff_toNat_le]

theorem following?_eq (a : UInt8) :
    following? a =
      if a.toNat < 0x80 then some 0
      else if 0xC2 ≤ a.toNat ∧ a.toNat ≤ 0xDF then some 1
      else if 0xE0 ≤ a.toNat ∧ a.toNat ≤ 0xEF then some 2
      else if 0xF0 ≤ a.toNat ∧ a.toNat ≤ 0xF4 then some 3
      else none := by
  simp [following?, UInt8.lt_iff_toNat_lt, UInt8.le_iff_toNat_le]

theorem maySucceed_iff {a b : UInt8} :
    maySucceed a b = true ↔
      (0x80 ≤ b.toNat ∧ b.toNat ≤ 0xBF) ∧
        (a.toNat = 0xE0 → 0xA0 ≤ b.toNat) ∧ (a.toNat = 0xED → b.toNat ≤ 0x9F) ∧
        (a.toNat = 0xF0 → 0x90 ≤ b.toNat) ∧ (a.toNat = 0xF4 → b.toNat ≤ 0x8F) := by
  simp only [maySucceed, Bool.and_eq_true, isContinuation_iff, ← UInt8.toNat_inj,
    UInt8.le_iff_toNat_le]
  split
  · simp_all
  · split
    · simp_all
    · split
      · simp_all
      · split
        · simp_all
        · simp_all

theorem ofNat_eq {a : UInt8} {n : Nat} (h : n = a.toNat) : UInt8.ofNat n = a := by
  rw [h, UInt8.ofNat_toNat]

theorem openingBits_zero (a : UInt8) : openingBits a 0 = a.toNat := rfl

theorem openingBits_one (a : UInt8) : openingBits a 1 = a.toNat - 0xC0 := rfl

theorem openingBits_two (a : UInt8) : openingBits a 2 = a.toNat - 0xE0 := rfl

theorem openingBits_three (a : UInt8) : openingBits a 3 = a.toNat - 0xF0 := rfl

theorem extend_eq (n : Nat) (b : UInt8) : extend n b = n * 64 + (b.toNat - 0x80) := rfl

/-! ## The forms of a character -/

/-- The character number `n` is written as the byte `a` and the bytes `tail`. -/
inductive Form (n : Nat) (a : UInt8) : List UInt8 → Prop
  | one (ha : a.toNat < 0x80) (hn : n = openingBits a 0) : Form n a []
  | two {b : UInt8} (ha : 0xC2 ≤ a.toNat ∧ a.toNat ≤ 0xDF) (hb : maySucceed a b = true)
      (hn : n = extend (openingBits a 1) b) : Form n a [b]
  | three {b c : UInt8} (ha : 0xE0 ≤ a.toNat ∧ a.toNat ≤ 0xEF) (hb : maySucceed a b = true)
      (hc : isContinuation c = true) (hn : n = extend (extend (openingBits a 2) b) c) :
      Form n a [b, c]
  | four {b c d : UInt8} (ha : 0xF0 ≤ a.toNat ∧ a.toNat ≤ 0xF4) (hb : maySucceed a b = true)
      (hc : isContinuation c = true) (hd : isContinuation d = true)
      (hn : n = extend (extend (extend (openingBits a 3) b) c) d) : Form n a [b, c, d]

namespace Form

theorem firstPiece_append {n : Nat} {a : UInt8} {tail : List UInt8} (h : Form n a tail)
    (rest : List UInt8) : firstPiece a (tail ++ rest) = (some (Char.ofNat n), tail.length) := by
  cases h with
  | one ha hn =>
    have hf : following? a = some 0 := by rw [following?_eq, if_pos ha]
    simp [firstPiece, hf, hn, openingBits_zero]
  | two ha hb hn =>
    have hf : following? a = some 1 := by
      rw [following?_eq, if_neg (by omega), if_pos ha]
    simp [firstPiece, hf, hb, hn, readContinuations]
  | three ha hb hc hn =>
    have hf : following? a = some 2 := by
      rw [following?_eq, if_neg (by omega), if_neg (by omega), if_pos ha]
    simp [firstPiece, hf, hb, hc, hn, readContinuations]
  | four ha hb hc hd hn =>
    have hf : following? a = some 3 := by
      rw [following?_eq, if_neg (by omega), if_neg (by omega), if_neg (by omega), if_pos ha]
    simp [firstPiece, hf, hb, hc, hd, hn, readContinuations]

/-- Only the bytes after the first one of a character are continuations. -/
theorem isContinuation_of_mem {n : Nat} {a b : UInt8} {tail : List UInt8} (h : Form n a tail)
    (hb : b ∈ tail) : isContinuation b = true := by
  have hfirst : ∀ {b : UInt8}, maySucceed a b = true → isContinuation b = true :=
    fun hb => (Bool.and_eq_true_iff.mp hb).1
  cases h with
  | one _ _ => cases hb
  | two _ hb' _ =>
    obtain rfl := List.mem_singleton.mp hb
    exact hfirst hb'
  | three _ hb' hc _ =>
    rcases List.mem_cons.mp hb with rfl | hb
    · exact hfirst hb'
    · obtain rfl := List.mem_singleton.mp hb
      exact hc
  | four _ hb' hc hd _ =>
    rcases List.mem_cons.mp hb with rfl | hb
    · exact hfirst hb'
    · rcases List.mem_cons.mp hb with rfl | hb
      · exact hc
      · obtain rfl := List.mem_singleton.mp hb
        exact hd

theorem not_isContinuation {n : Nat} {a : UInt8} {tail : List UInt8} (h : Form n a tail) :
    isContinuation a ≠ true := by
  rw [Ne, isContinuation_iff]
  cases h with
  | one ha _ => omega
  | two ha _ _ => omega
  | three ha _ _ _ => omega
  | four ha _ _ _ _ => omega

theorem isValidChar {n : Nat} {a : UInt8} {tail : List UInt8} (h : Form n a tail) :
    n.isValidChar := by
  cases h with
  | one ha hn =>
    simp only [openingBits_zero] at hn
    simp only [Nat.isValidChar]
    omega
  | two ha hb hn =>
    rw [maySucceed_iff] at hb
    simp only [openingBits_one, extend_eq] at hn
    simp only [Nat.isValidChar]
    omega
  | three ha hb hc hn =>
    rw [maySucceed_iff] at hb
    rw [isContinuation_iff] at hc
    simp only [openingBits_two, extend_eq] at hn
    simp only [Nat.isValidChar]
    omega
  | four ha hb hc hd hn =>
    rw [maySucceed_iff] at hb
    rw [isContinuation_iff] at hc hd
    simp only [openingBits_three, extend_eq] at hn
    simp only [Nat.isValidChar]
    omega

theorem toNat_ofNat {n : Nat} {a : UInt8} {tail : List UInt8} (h : Form n a tail) :
    (Char.ofNat n).toNat = n := by
  rw [Char.ofNat, dif_pos h.isValidChar]
  rfl

theorem encodeChar_ofNat {n : Nat} {a : UInt8} {tail : List UInt8} (h : Form n a tail) :
    encodeChar (Char.ofNat n) = a :: tail := by
  simp only [encodeChar, h.toNat_ofNat]
  cases h with
  | one ha hn =>
    simp only [openingBits_zero] at hn
    rw [if_pos (by omega), ofNat_eq hn]
  | @two b ha hb hn =>
    rw [maySucceed_iff] at hb
    simp only [openingBits_one, extend_eq] at hn
    have h₁ : UInt8.ofNat (0xC0 + n / 64) = a := ofNat_eq (by omega)
    have h₂ : UInt8.ofNat (0x80 + n % 64) = b := ofNat_eq (by omega)
    rw [if_neg (by omega), if_pos (by omega), h₁, h₂]
  | @three b c ha hb hc hn =>
    rw [maySucceed_iff] at hb
    rw [isContinuation_iff] at hc
    simp only [openingBits_two, extend_eq] at hn
    have h₁ : UInt8.ofNat (0xE0 + n / 4096) = a := ofNat_eq (by omega)
    have h₂ : UInt8.ofNat (0x80 + n / 64 % 64) = b := ofNat_eq (by omega)
    have h₃ : UInt8.ofNat (0x80 + n % 64) = c := ofNat_eq (by omega)
    rw [if_neg (by omega), if_neg (by omega), if_pos (by omega), h₁, h₂, h₃]
  | @four b c d ha hb hc hd hn =>
    rw [maySucceed_iff] at hb
    rw [isContinuation_iff] at hc hd
    simp only [openingBits_three, extend_eq] at hn
    have h₁ : UInt8.ofNat (0xF0 + n / 262144) = a := ofNat_eq (by omega)
    have h₂ : UInt8.ofNat (0x80 + n / 4096 % 64) = b := ofNat_eq (by omega)
    have h₃ : UInt8.ofNat (0x80 + n / 64 % 64) = c := ofNat_eq (by omega)
    have h₄ : UInt8.ofNat (0x80 + n % 64) = d := ofNat_eq (by omega)
    rw [if_neg (by omega), if_neg (by omega), if_neg (by omega), h₁, h₂, h₃, h₄]

end Form

/-- The bytes of a character have one of the forms. -/
theorem encodeChar_form (c : Char) : ∃ a tail, encodeChar c = a :: tail ∧ Form c.toNat a tail := by
  have hv : c.toNat < 0xD800 ∨ 0xDFFF < c.toNat ∧ c.toNat < 0x110000 := c.valid
  have small : ∀ n, n < 256 → (UInt8.ofNat n).toNat = n := fun n hn => by simp; omega
  unfold encodeChar
  generalize c.toNat = n at hv ⊢
  simp only
  split
  · have h₁ := small n (by omega)
    exact ⟨_, _, rfl, .one (by omega) (by rw [openingBits_zero, h₁])⟩
  · split
    · have h₁ := small (0xC0 + n / 64) (by omega)
      have h₂ := small (0x80 + n % 64) (by omega)
      refine ⟨_, _, rfl, .two (by omega) ?_ ?_⟩
      · rw [maySucceed_iff]
        omega
      · simp only [openingBits_one, extend_eq]
        omega
    · split
      · have h₁ := small (0xE0 + n / 4096) (by omega)
        have h₂ := small (0x80 + n / 64 % 64) (by omega)
        have h₃ := small (0x80 + n % 64) (by omega)
        refine ⟨_, _, rfl, .three (by omega) ?_ ?_ ?_⟩
        · rw [maySucceed_iff]
          omega
        · rw [isContinuation_iff]
          omega
        · simp only [openingBits_two, extend_eq]
          omega
      · have h₁ := small (0xF0 + n / 262144) (by omega)
        have h₂ := small (0x80 + n / 4096 % 64) (by omega)
        have h₃ := small (0x80 + n / 64 % 64) (by omega)
        have h₄ := small (0x80 + n % 64) (by omega)
        refine ⟨_, _, rfl, .four (by omega) ?_ ?_ ?_ ?_⟩
        · rw [maySucceed_iff]
          omega
        · rw [isContinuation_iff]
          omega
        · rw [isContinuation_iff]
          omega
        · simp only [openingBits_three, extend_eq]
          omega

/-- Continuation bytes that were read to the end extend the number in turn. -/
theorem readContinuations_eq_some {value read n v used : Nat} {rest : List UInt8}
    (h : readContinuations value read n rest = (some v, used)) :
    ∃ cs more, rest = cs ++ more ∧ cs.length = n ∧ (∀ c ∈ cs, isContinuation c = true) ∧
      v = cs.foldl extend value ∧ used = read + n := by
  induction n generalizing value read rest with
  | zero =>
    obtain ⟨rfl, rfl⟩ : value = v ∧ read = used := by simpa [readContinuations] using h
    exact ⟨[], rest, rfl, rfl, by simp, rfl, rfl⟩
  | succ n ih =>
    cases rest with
    | nil => simp [readContinuations] at h
    | cons b rest =>
      rw [readContinuations] at h
      split at h
      · obtain ⟨cs, more, rfl, rfl, hcs, rfl, rfl⟩ := ih h
        refine ⟨b :: cs, more, rfl, rfl, ?_, by rw [List.foldl_cons], by omega⟩
        intro c hc
        rcases List.mem_cons.mp hc with rfl | hc
        · assumption
        · exact hcs c hc
      · simp at h

/-- What `firstPiece` reads of a character with bytes to follow. -/
theorem firstPiece_succ {a : UInt8} {n : Nat} {rest : List UInt8} {c : Char} {used : Nat}
    (hn : following? a = some (n + 1)) (h : firstPiece a rest = (some c, used)) :
    ∃ b cs more, rest = b :: cs ++ more ∧ used = cs.length + 1 ∧ cs.length = n ∧
      maySucceed a b = true ∧ (∀ c ∈ cs, isContinuation c = true) ∧
      c = Char.ofNat (cs.foldl extend (extend (openingBits a (n + 1)) b)) := by
  cases rest with
  | nil => simp [firstPiece, hn] at h
  | cons b rest =>
    simp only [firstPiece, hn] at h
    split at h
    · rename_i hb
      cases hr : readContinuations (extend (openingBits a (n + 1)) b) 1 n rest with
      | mk value read =>
        rw [hr] at h
        cases value with
        | none => simp at h
        | some v =>
          obtain ⟨cs, more, rfl, hlen, hcs, rfl, rfl⟩ := readContinuations_eq_some hr
          obtain ⟨rfl, rfl⟩ : Char.ofNat (cs.foldl extend _) = c ∧ 1 + n = used := by simpa using h
          exact ⟨b, cs, more, rfl, by omega, hlen, hb, hcs, rfl⟩
    · simp at h

/-- A piece that is a character was read off one of its forms. -/
theorem form_of_firstPiece {a : UInt8} {rest : List UInt8} {c : Char} {used : Nat}
    (h : firstPiece a rest = (some c, used)) :
    ∃ n tail more, rest = tail ++ more ∧ used = tail.length ∧ c = Char.ofNat n ∧ Form n a tail := by
  have hf := following?_eq a
  split at hf
  · simp only [firstPiece, hf, Prod.mk.injEq, Option.some.injEq] at h
    exact ⟨_, [], rest, rfl, h.2.symm, h.1.symm, .one ‹_› rfl⟩
  · split at hf
    · obtain ⟨b, cs, more, rfl, hused, hlen, hb, hcs, rfl⟩ := firstPiece_succ hf h
      obtain rfl := List.length_eq_zero_iff.mp hlen
      exact ⟨_, [b], more, rfl, hused, rfl, .two ‹_› hb rfl⟩
    · split at hf
      · obtain ⟨b, cs, more, rfl, hused, hlen, hb, hcs, rfl⟩ := firstPiece_succ hf h
        obtain ⟨c, rfl⟩ := List.length_eq_one_iff.mp hlen
        exact ⟨_, [b, c], more, rfl, hused, rfl, .three ‹_› hb (hcs c (by simp)) rfl⟩
      · split at hf
        · obtain ⟨b, cs, more, rfl, hused, hlen, hb, hcs, rfl⟩ := firstPiece_succ hf h
          obtain ⟨c, d, rfl⟩ := List.length_eq_two.1 hlen
          exact ⟨_, [b, c, d], more, rfl, hused, rfl,
            .four ‹_› hb (hcs c (by simp)) (hcs d (by simp)) rfl⟩
        · simp [firstPiece, hf] at h

/-! ## Texts -/

theorem length_encodeChar (c : Char) : (encodeChar c).length = c.utf8Size := by
  have hsize : c.utf8Size =
      if c.toNat ≤ 0x7F then 1 else if c.toNat ≤ 0x7FF then 2
      else if c.toNat ≤ 0xFFFF then 3 else 4 := rfl
  rw [hsize, encodeChar]
  by_cases h₁ : c.toNat < 0x80
  · rw [if_pos h₁, if_pos (by omega), List.length_singleton]
  · rw [if_neg h₁, if_neg (show ¬ c.toNat ≤ 0x7F by omega)]
    by_cases h₂ : c.toNat < 0x800
    · rw [if_pos h₂, if_pos (by omega)]
      rfl
    · rw [if_neg h₂, if_neg (show ¬ c.toNat ≤ 0x7FF by omega)]
      by_cases h₃ : c.toNat < 0x10000
      · rw [if_pos h₃, if_pos (by omega)]
        rfl
      · rw [if_neg h₃, if_neg (show ¬ c.toNat ≤ 0xFFFF by omega)]
        rfl

/-- `size` counts the bytes that a text is written as. -/
theorem length_encode (text : List Char) : (encode text).length = size text := by
  induction text with
  | nil => rfl
  | cons c text ih => rw [encode_cons, List.length_append, length_encodeChar, ih, size_cons]

theorem piecesFrom_eq (done : List (Option Char)) (skip : Nat) (bytes : List UInt8) :
    piecesFrom done skip bytes = done.reverse ++ pieces (bytes.drop skip) := by
  induction bytes generalizing done skip with
  | nil => simp [pieces, piecesFrom]
  | cons a rest ih =>
    cases skip with
    | zero =>
      rw [List.drop_zero, pieces, piecesFrom, piecesFrom]
      simp only
      rw [ih, ih [_]]
      simp
    | succ skip =>
      rw [piecesFrom, ih]
      rfl

theorem pieces_cons (a : UInt8) (rest : List UInt8) :
    pieces (a :: rest) = (firstPiece a rest).1 :: pieces (rest.drop (firstPiece a rest).2) := by
  rw [pieces, piecesFrom]
  exact piecesFrom_eq _ _ _

theorem decode?_eq_some_iff_pieces {bytes : List UInt8} {text : List Char} :
    decode? bytes = some text ↔ pieces bytes = text.map some := by
  simp only [decode?]
  generalize pieces bytes = found
  constructor
  · intro h
    split at h
    · rename_i hall
      cases h
      induction found with
      | nil => rfl
      | cons piece found ih =>
        obtain ⟨hp, hall⟩ : piece.isSome = true ∧ found.all Option.isSome = true := by
          simpa using hall
        obtain ⟨c, rfl⟩ := Option.isSome_iff_exists.mp hp
        simpa using ih hall
    · cases h
  · rintro rfl
    simp

theorem pieces_encode (text : List Char) : pieces (encode text) = text.map some := by
  induction text with
  | nil => rfl
  | cons c text ih =>
    obtain ⟨a, tail, he, hform⟩ := encodeChar_form c
    rw [encode_cons, he, List.cons_append, pieces_cons, hform.firstPiece_append, List.map_cons]
    simp [ih]

theorem eq_encode_of_pieces {bytes : List UInt8} {text : List Char}
    (h : pieces bytes = text.map some) : bytes = encode text := by
  induction text generalizing bytes with
  | nil =>
    cases bytes with
    | nil => rfl
    | cons a rest => simp [pieces_cons] at h
  | cons c text ih =>
    cases bytes with
    | nil => simp [pieces, piecesFrom] at h
    | cons a rest =>
      rw [pieces_cons, List.map_cons, List.cons.injEq] at h
      obtain ⟨n, tail, more, rfl, -, rfl, hform⟩ := form_of_firstPiece (Prod.ext h.1 rfl)
      rw [hform.firstPiece_append, List.drop_left] at h
      rw [encode_cons, hform.encodeChar_ofNat, List.cons_append, ih h.2]

/-- Bytes are a text exactly if they are what the text is written as. -/
theorem decode?_eq_some {bytes : List UInt8} {text : List Char} :
    decode? bytes = some text ↔ bytes = encode text := by
  rw [decode?_eq_some_iff_pieces]
  constructor
  · exact eq_encode_of_pieces
  · rintro rfl
    exact pieces_encode text

/-- A text has no faults to show. -/
theorem lossy_encode (text : List Char) : lossy (encode text) = text := by
  rw [lossy, pieces_encode, List.map_map]
  exact List.map_id text

theorem decode?_encode (text : List Char) : decode? (encode text) = some text :=
  decode?_eq_some.mpr rfl

/-- The bytes of a character that is read are among those that it is read from. -/
theorem encodeChar_subset {bytes : List UInt8} {c : Char} (h : some c ∈ pieces bytes) :
    encodeChar c ⊆ bytes := by
  induction hn : bytes.length using Nat.strongRecOn generalizing bytes with
  | ind n ih =>
    cases bytes with
    | nil => simp [pieces, piecesFrom] at h
    | cons a rest =>
      rw [pieces_cons] at h
      rcases List.mem_cons.mp h with hfirst | hmore
      · obtain ⟨n, tail, more, rfl, -, rfl, hform⟩ := form_of_firstPiece (Prod.ext hfirst.symm rfl)
        rw [hform.encodeChar_ofNat]
        exact List.cons_subset_cons a (List.subset_append_left tail more)
      · have hlength : (rest.drop (firstPiece a rest).2).length < n := by
          rw [← hn, List.length_drop, List.length_cons]
          omega
        exact List.subset_cons_of_subset a
          (List.Subset.trans (ih _ hlength hmore rfl) (List.drop_subset _ rest))

/-- Faults are not shown as line feeds, and no other character is written with one. -/
theorem feed_of_mem_lossy {bytes : List UInt8} (h : '\n' ∈ lossy bytes) : 0x0A ∈ bytes := by
  obtain ⟨piece, hpiece, hshown⟩ := List.mem_map.mp h
  cases piece with
  | none => exact absurd hshown (by decide)
  | some c =>
    obtain rfl : c = '\n' := hshown
    exact encodeChar_subset hpiece (by decide)

theorem encode_injective : Function.Injective encode := by
  intro a b h
  have ha := decode?_encode a
  rw [h, decode?_encode] at ha
  exact (Option.some.inj ha).symm

/-- A text that ends in the bytes of another one ends in that one: no character starts inside the
bytes of another. -/
theorem eq_append_of_encode {text rest : List Char} {front : List UInt8}
    (h : encode text = front ++ encode rest) : ∃ stem, text = stem ++ rest := by
  induction text generalizing front with
  | nil =>
    rw [encode_nil, eq_comm, List.append_eq_nil_iff] at h
    exact ⟨[], encode_injective h.2.symm⟩
  | cons c text ih =>
    cases front with
    | nil => exact ⟨[], encode_injective h⟩
    | cons b front =>
      obtain ⟨a, tail, hc, hform⟩ := encodeChar_form c
      rw [encode_cons, hc, List.cons_append, List.cons_append, List.cons.injEq] at h
      rcases List.append_eq_append_iff.mp h.2 with ⟨more, -, hmore⟩ | ⟨inside, htail, hinside⟩
      · obtain ⟨stem, rfl⟩ := ih hmore
        exact ⟨c :: stem, rfl⟩
      · cases inside with
        | nil => exact ⟨[c], by rw [encode_injective hinside]; rfl⟩
        | cons a' inside =>
          cases rest with
          | nil => cases hinside
          | cons d rest =>
            -- the first byte of `d` would be one that continues `c`
            obtain ⟨a'', tail', hd, hform'⟩ := encodeChar_form d
            rw [encode_cons, hd, List.cons_append, List.cons_append, List.cons.injEq] at hinside
            refine absurd (hform.isContinuation_of_mem (b := a'') ?_) hform'.not_isContinuation
            rw [htail, hinside.1]
            exact List.mem_append_right _ List.mem_cons_self

theorem encodeChar_append_inj {c d : Char} {x y : List UInt8}
    (h : encodeChar c ++ x = encodeChar d ++ y) : c = d ∧ x = y := by
  obtain ⟨a, tail, hc, hform⟩ := encodeChar_form c
  obtain ⟨a', tail', hd, hform'⟩ := encodeChar_form d
  have hfirst : c = d := by
    rw [hc, hd, List.cons_append, List.cons_append, List.cons.injEq] at h
    have hpiece := hform.firstPiece_append x
    rw [h.1, h.2, hform'.firstPiece_append y, Char.ofNat_toNat, Char.ofNat_toNat] at hpiece
    exact (Option.some.inj (congrArg Prod.fst hpiece)).symm
  subst hfirst
  exact ⟨rfl, List.append_cancel_left h⟩

/-- A text whose bytes begin with those of another one begins with that one. -/
theorem isPrefix_of_encode {a text : List Char} (h : encode a <+: encode text) : a <+: text := by
  induction a generalizing text with
  | nil => exact List.nil_prefix
  | cons c a ih =>
    obtain ⟨more, h⟩ := h
    cases text with
    | nil =>
      obtain ⟨b, tail, hc, -⟩ := encodeChar_form c
      simp [hc] at h
    | cons d text =>
      rw [encode_cons, encode_cons, List.append_assoc] at h
      obtain ⟨rfl, hrest⟩ := encodeChar_append_inj h
      exact List.cons_prefix_cons.mpr ⟨rfl, ih ⟨more, hrest⟩⟩

/-- Where the bytes of a text go on with those of another one, the text goes on with that one: no
character starts inside the bytes of another. -/
theorem exists_of_encode_drop {c : Char} {a text : List Char} {p : Nat}
    (h : encode (c :: a) <+: (encode text).drop p) :
    ∃ before after, text = before ++ (c :: a ++ after) ∧ p = size before := by
  obtain ⟨b, tail, hc, hform⟩ := encodeChar_form c
  induction text generalizing p with
  | nil => simp [hc] at h
  | cons d text ih =>
    by_cases hsize : d.utf8Size ≤ p
    · obtain ⟨q, rfl⟩ := Nat.exists_eq_add_of_le hsize
      rw [encode_cons d, ← length_encodeChar d, List.drop_length_add_append] at h
      obtain ⟨before, after, rfl, rfl⟩ := ih h
      exact ⟨d :: before, after, rfl, rfl⟩
    · cases p with
      | zero =>
        obtain ⟨after, htext⟩ := isPrefix_of_encode h
        exact ⟨[], after, htext.symm, rfl⟩
      | succ p =>
        -- the first byte of `c` would be one that continues `d`
        obtain ⟨b', tail', hd, hform'⟩ := encodeChar_form d
        have hlen : p < tail'.length := by
          have := length_encodeChar d
          rw [hd, List.length_cons] at this
          omega
        obtain ⟨more, h⟩ := h
        rw [encode_cons, encode_cons, hc, hd, List.cons_append, List.cons_append, List.cons_append,
          List.drop_succ_cons, List.drop_append_of_le_length (Nat.le_of_lt hlen),
          List.drop_eq_getElem_cons hlen, List.cons_append, List.cons.injEq] at h
        refine absurd ?_ hform.not_isContinuation
        rw [h.1]
        exact hform'.isContinuation_of_mem (List.getElem_mem hlen)

/-- Only a line feed is written with the byte of one. -/
theorem feed_mem_encode_iff {text : List Char} : 0x0A ∈ encode text ↔ '\n' ∈ text := by
  constructor
  · intro h
    obtain ⟨front, back, hsplit⟩ := List.append_of_mem h
    have hdrop : encode ['\n'] <+: (encode text).drop front.length := by
      rw [hsplit, List.drop_left]
      exact ⟨back, rfl⟩
    obtain ⟨before, after, rfl, -⟩ := exists_of_encode_drop hdrop
    simp
  · intro h
    rw [← lossy_encode text] at h
    exact feed_of_mem_lossy h

end OpacityMigration.Utf8
