import OpacityMigration.Proofs.Precedence
import OpacityMigration.Proofs.WalkContent

/-!
# Spellings of an extension

An extension may be written with blanks around it and with dots before it. It is stripped of the
blanks and then of the dots, once each. So blanks that stand behind the dots stay, and what comes
out is no normal form: stripped again, it is another extension, or nothing.

* `Normal`: an extension that is written as it is meant.
* `blankAfterDots_iff`: when stripping leaves a blank in front.
* `isWanted_strip_iff`: when the spelling of an extension decides which files have it.
* `resolved_normal_iff`: when the extensions of a resolved configuration are in normal form, and the
  configuration is resolved to itself.
-/

namespace OpacityMigration

/-! ## Texts without blanks at their ends -/

namespace Text

theorem dropWhile_append_of_boundary {p : Char → Bool} {front rest : List Char}
    (hfront : ∀ c ∈ front, p c = true) (hrest : ∀ c ∈ rest.head?, p c = false) :
    (front ++ rest).dropWhile p = rest := by
  rw [List.dropWhile_append_of_pos hfront]
  cases rest with
  | nil => rfl
  | cons c rest => exact List.dropWhile_cons_of_neg (by simp [hrest c rfl])

theorem head?_dropWhile {p : Char → Bool} (text : List Char) :
    ∀ c ∈ (text.dropWhile p).head?, p c = false := by
  intro c hc
  have h := List.head?_dropWhile_not p text
  rw [Option.mem_def.mp hc] at h
  exact h

/-- A text that no blank starts or ends. -/
structure Trimmed (text : List Char) : Prop where
  head : ∀ c ∈ text.head?, isBlank c = false
  last : ∀ c ∈ text.getLast?, isBlank c = false

theorem trim_append {before text after : List Char} (hbefore : ∀ c ∈ before, isBlank c = true)
    (hafter : ∀ c ∈ after, isBlank c = true) (h : Trimmed text) :
    trim (before ++ (text ++ after)) = text := by
  by_cases hne : text = []
  · subst hne
    have hall : (before ++ after).dropWhile isBlank = [] := by
      rw [List.dropWhile_append_of_pos hbefore]
      exact List.dropWhile_eq_nil_iff.mpr hafter
    rw [List.nil_append, trim, hall]
    rfl
  · have hhead : (text ++ after).head? = text.head? := List.head?_append_of_ne_nil text hne
    have hlast : text.reverse.head? = text.getLast? := List.head?_reverse
    have hafter' : ∀ c ∈ after.reverse, isBlank c = true := by
      intro c hc
      exact hafter c (List.mem_reverse.mp hc)
    rw [trim, dropWhile_append_of_boundary hbefore (by rw [hhead]; exact h.head),
      List.reverse_append, dropWhile_append_of_boundary hafter' (by rw [hlast]; exact h.last),
      List.reverse_reverse]

theorem Trimmed.trim_eq {text : List Char} (h : Trimmed text) : trim text = text := by
  have htrim := @trim_append [] text [] (by simp) (by simp) h
  rwa [List.nil_append, List.append_nil] at htrim

theorem trim_eq_rdropWhile (text : List Char) :
    trim text = (text.dropWhile isBlank).rdropWhile isBlank := rfl

/-- What is taken off are the blanks at both ends, and none is left there. -/
theorem exists_trim (text : List Char) :
    ∃ before after, text = before ++ (trim text ++ after) ∧
      (∀ c ∈ before, isBlank c = true) ∧ (∀ c ∈ after, isBlank c = true) := by
  refine ⟨text.takeWhile isBlank, (text.dropWhile isBlank).rtakeWhile isBlank, ?_, ?_, ?_⟩
  · rw [trim_eq_rdropWhile, List.rdropWhile_append_rtakeWhile, List.takeWhile_append_dropWhile]
  · intro c hc
    exact List.mem_takeWhile_imp hc
  · intro c hc
    exact List.mem_rtakeWhile_imp hc

theorem trimmed_trim (text : List Char) : Trimmed (trim text) := by
  constructor
  · intro c hc
    apply head?_dropWhile text
    obtain ⟨rest, hrest⟩ := List.head?_eq_some_iff.mp hc
    obtain ⟨more, hmore⟩ := List.rdropWhile_prefix isBlank (text.dropWhile isBlank)
    rw [← hmore, ← trim_eq_rdropWhile, hrest]
    rfl
  · intro c hc
    obtain ⟨hne, rfl⟩ := List.mem_getLast?_eq_getLast hc
    exact Bool.eq_false_iff.mpr (List.rdropWhile_last_not isBlank (text.dropWhile isBlank) hne)

end Text

namespace Extension

open Text

variable {w e : String} {es : List String}

/-! ## What stripping leaves -/

theorem toList_strip (w : String) :
    (strip w).toList = (trim w.toList).dropWhile (· == '.') := by
  rw [strip, String.toList_ofList]

theorem head?_strip (w : String) : (strip w).toList.head? ≠ some '.' := by
  intro h
  rw [toList_strip] at h
  have hdot := head?_dropWhile _ '.' h
  simp at hdot

theorem getLast?_strip (w : String) : ∀ c ∈ (strip w).toList.getLast?, isBlank c = false := by
  intro c hc
  apply (trimmed_trim w.toList).last
  obtain ⟨dots, hdots⟩ := @List.dropWhile_suffix _ (trim w.toList) (· == '.')
  rw [toList_strip] at hc
  rw [← hdots, List.getLast?_append, Option.mem_def.mp hc]
  rfl

/-- An extension that is written as it is meant: nothing of it is stripped. -/
structure Normal (e : String) : Prop where
  ne_empty : e ≠ ""
  no_dot : e.toList.head? ≠ some '.'
  trimmed : Trimmed e.toList

theorem normal_iff : Normal e ↔ e ≠ "" ∧ strip e = e := by
  constructor
  · intro h
    refine ⟨h.ne_empty, ?_⟩
    have hdots : e.toList.dropWhile (· == '.') = e.toList := by
      refine @dropWhile_append_of_boundary _ [] e.toList (by simp) ?_
      intro c hc
      simpa using fun heq : c = '.' => h.no_dot (heq ▸ hc)
    rw [strip, h.trimmed.trim_eq, hdots, String.ofList_toList]
  · rintro ⟨hne, hstrip⟩
    have hlist := toList_strip e
    rw [hstrip] at hlist
    -- what is stripped is no longer than what is trimmed, which is no longer than `e`
    have htrim : trim e.toList = e.toList := by
      obtain ⟨before, after, heq, -, -⟩ := exists_trim e.toList
      have hlong := List.length_dropWhile_le (· == '.') (trim e.toList)
      rw [← hlist] at hlong
      have hshort : (trim e.toList).Sublist e.toList := by
        conv_rhs => rw [heq]
        exact (List.sublist_append_left _ _).trans (List.sublist_append_right _ _)
      exact hshort.eq_of_length_le hlong
    refine ⟨hne, ?_, htrim ▸ trimmed_trim e.toList⟩
    rw [← hstrip]
    exact head?_strip e

/-- Of what a normal form asks for, stripping can only miss that no blank is in front. -/
theorem normal_strip_iff (h : strip w ≠ "") :
    Normal (strip w) ↔ ∀ c ∈ (strip w).toList.head?, isBlank c = false :=
  ⟨fun hnormal => hnormal.trimmed.head, fun hhead => ⟨h, head?_strip w, hhead, getLast?_strip w⟩⟩

/-! ## Blanks behind the dots -/

/-- After blanks, if any, the extension is written with dots and then with a blank that something
other than blanks follows. -/
def BlankAfterDots (w : String) : Prop :=
  ∃ before dots blank rest, w.toList = before ++ (dots ++ blank :: rest) ∧
    (∀ c ∈ before, isBlank c = true) ∧ dots ≠ [] ∧ (∀ c ∈ dots, c = '.') ∧
    isBlank blank = true ∧ ∃ c ∈ rest, isBlank c = false

theorem trimmed_dots_append {dots rest : List Char} {blank : Char} (hne : dots ≠ [])
    (hdots : ∀ c ∈ dots, c = '.') (hrest : ∃ c ∈ rest, isBlank c = false) :
    Trimmed (dots ++ blank :: rest.rdropWhile isBlank) := by
  have hinner : rest.rdropWhile isBlank ≠ [] := by
    intro hnil
    obtain ⟨c, hc, hplain⟩ := hrest
    rw [List.rdropWhile_eq_nil_iff.mp hnil c hc] at hplain
    cases hplain
  constructor
  · intro c hc
    rw [List.head?_append_of_ne_nil dots hne] at hc
    rw [hdots c (List.mem_of_mem_head? hc)]
    decide
  · intro c hc
    rw [List.getLast?_append_cons, List.getLast?_cons_of_ne_nil hinner] at hc
    obtain ⟨hne', rfl⟩ := List.mem_getLast?_eq_getLast hc
    exact Bool.eq_false_iff.mpr (List.rdropWhile_last_not isBlank rest hne')

/-- The blanks are taken off first, so those behind the dots are still there in the end. -/
theorem BlankAfterDots.head?_strip (h : BlankAfterDots w) :
    ∃ c ∈ (strip w).toList.head?, isBlank c = true := by
  obtain ⟨before, dots, blank, rest, heq, hbefore, hne, hdots, hblank, hrest⟩ := h
  have htrim : trim w.toList = dots ++ blank :: rest.rdropWhile isBlank := by
    have hafter : ∀ c ∈ rest.rtakeWhile isBlank, isBlank c = true :=
      fun c hc => List.mem_rtakeWhile_imp hc
    have h := trim_append hbefore hafter (@trimmed_dots_append dots rest blank hne hdots hrest)
    rwa [List.append_assoc, List.cons_append, List.rdropWhile_append_rtakeWhile, ← heq] at h
  have hdot : blank ≠ '.' := by
    rintro rfl
    revert hblank
    decide
  refine ⟨blank, ?_, hblank⟩
  rw [toList_strip, htrim,
    dropWhile_append_of_boundary (by simpa using hdots) (by simpa using hdot)]
  rfl

theorem blankAfterDots_of_head? {blank : Char} (hhead : blank ∈ (strip w).toList.head?)
    (hblank : isBlank blank = true) : BlankAfterDots w := by
  obtain ⟨rest, hrest⟩ := List.head?_eq_some_iff.mp hhead
  obtain ⟨before, after, heq, hbefore, -⟩ := exists_trim w.toList
  have htrimmed := trimmed_trim w.toList
  have hsplit := @List.takeWhile_append_dropWhile _ (· == '.') (trim w.toList)
  rw [← toList_strip, hrest] at hsplit
  rw [← hsplit] at heq htrimmed
  generalize hdots : (trim w.toList).takeWhile (· == '.') = dots at heq htrimmed
  refine ⟨before, dots, blank, rest ++ after, ?_, hbefore, ?_, ?_, hblank, ?_⟩
  · rw [heq, List.append_assoc, List.cons_append]
  · rintro rfl
    rw [htrimmed.head blank rfl] at hblank
    cases hblank
  · intro c hc
    rw [← hdots] at hc
    simpa using List.mem_takeWhile_imp hc
  · cases hlast : rest.getLast? with
    | none =>
      rw [List.getLast?_eq_none_iff.mp hlast] at htrimmed
      rw [htrimmed.last blank (by simp)] at hblank
      cases hblank
    | some c =>
      have hc : c ∈ (dots ++ blank :: rest).getLast? := by
        rw [List.getLast?_append_cons, List.getLast?_cons, hlast]
        rfl
      exact ⟨c, List.mem_append_left _ (List.mem_of_getLast? hlast), htrimmed.last c hc⟩

theorem blankAfterDots_iff :
    BlankAfterDots w ↔ ∃ c ∈ (strip w).toList.head?, isBlank c = true :=
  ⟨BlankAfterDots.head?_strip, fun ⟨_, hhead, hblank⟩ => blankAfterDots_of_head? hhead hblank⟩

theorem normal_strip_iff_not (h : strip w ≠ "") : Normal (strip w) ↔ ¬ BlankAfterDots w := by
  rw [normal_strip_iff h, blankAfterDots_iff]
  simp

/-! ## What a spelling means -/

/-- The extension that a spelling means: no blanks around it, no dots and blanks before it. -/
def plain (written : String) : String :=
  String.ofList ((trim written.toList).dropWhile fun c => c == '.' || isBlank c)

theorem toList_plain (w : String) :
    (plain w).toList = (strip w).toList.dropWhile fun c => c == '.' || isBlank c := by
  have hsplit := @List.takeWhile_append_dropWhile _ (· == '.') (trim w.toList)
  rw [plain, String.toList_ofList, toList_strip]
  conv_lhs => rw [← hsplit]
  apply List.dropWhile_append_of_pos
  intro c hc
  rw [List.mem_takeWhile_imp (p := (· == '.')) hc, Bool.true_or]

theorem strip_eq_plain_iff : strip w = plain w ↔ ¬ BlankAfterDots w := by
  rw [blankAfterDots_iff, ← String.toList_inj, toList_plain]
  have hdot := head?_strip w
  cases hlist : (strip w).toList with
  | nil => simp
  | cons c rest =>
    rw [hlist] at hdot
    have hc : (c == '.') = false := by simpa using hdot
    cases hblank : isBlank c with
    | false => simp [hc, hblank]
    | true =>
      refine iff_of_false ?_ (by simp [hblank])
      intro heq
      have hlong := congrArg List.length heq
      rw [List.dropWhile_cons_of_pos (by simp [hblank]), List.length_cons] at hlong
      have := List.length_dropWhile_le (fun c => c == '.' || isBlank c) rest
      omega

/-- The spelling of an extension decides which files have it exactly if blanks stand behind its
dots: a file that has the extension as it is meant, and nothing before it, has not the other. -/
theorem isWanted_strip_iff :
    Walk.isWanted [strip w] = Walk.isWanted [plain w] ↔ ¬ BlankAfterDots w := by
  rw [← strip_eq_plain_iff]
  constructor
  · intro h
    have hwanted : Walk.isWanted [strip w] (Utf8.encode ('.' :: (plain w).toList)) = true := by
      rw [h]
      exact Walk.isWanted_iff.mpr ⟨[], plain w, List.mem_singleton_self _, rfl⟩
    obtain ⟨stem, extension, hmem, heq⟩ := Walk.isWanted_iff.mp hwanted
    obtain rfl := List.mem_singleton.mp hmem
    have hsuffix : (plain w).toList <:+ (strip w).toList := by
      rw [toList_plain]
      exact List.dropWhile_suffix _
    have hlength := congrArg List.length (Utf8.encode_injective heq)
    rw [List.length_append, List.length_cons, List.length_cons] at hlength
    rw [← String.toList_inj]
    exact (hsuffix.eq_of_length_le (by omega)).symm
  · intro h
    rw [h]

/-! ## Lists -/

/-- Extensions are what becomes of them exactly if each is in normal form. -/
theorem normalize_eq_self (hne : es ≠ []) (hnodup : es.Nodup) :
    normalize es = .ok es ↔ ∀ e ∈ es, Normal e := by
  rw [normalize_eq_ok]
  constructor
  · rintro ⟨⟨-, hleft⟩, heq⟩ e he
    have hsub : es.Sublist (es.map strip) := by
      conv => lhs; rw [heq]
      exact eraseDups_sublist _
    have hmap : es = es.map strip := hsub.eq_of_length (List.length_map strip).symm
    have hstrip : strip e = e := by
      apply List.map_inj_left.mp (hmap.symm.trans (List.map_id es).symm) e he
    refine normal_iff.mpr ⟨?_, hstrip⟩
    rw [← hstrip]
    exact hleft e he
  · intro h
    have hmap : es.map strip = es := by
      conv_rhs => rw [← List.map_id es]
      exact List.map_congr_left fun e he => (normal_iff.mp (h e he)).2
    refine ⟨⟨hne, fun e he => ?_⟩, by rw [hmap, eraseDups_eq_self hnodup]⟩
    rw [(normal_iff.mp (h e he)).2]
    exact (h e he).ne_empty

/-- An extension of which nothing but blanks and a dot is left is refused the next time. -/
example : normalize [". ."] = .ok [" ."] ∧ normalize [" ."] = .error (.blank " .") := by decide

end Extension

namespace Config

open Extension (Normal BlankAfterDots strip plain normal_strip_iff_not)

variable {fs : FileSystem} {named : Option Path} {cwd : Path} {overrides : Overrides} {c : Config}

/-! ## Resolved configurations -/

/-- Giving the root and other extensions leaves the rest as it was. -/
theorem merged_again {m : Config} {es : List String} {root : Option Path}
    (h : merged fs named cwd overrides = .ok m) (hne : es ≠ [])
    (hroot : root = overrides.root ∨ root = some m.root) :
    merged fs named cwd ⟨root, es⟩ = .ok { m with extensions := es } := by
  obtain ⟨file, hfile, rfl⟩ := consults_of_merged h
  rw [merged_of_consults hfile, draft_fill, draft_fill]
  rcases hroot with rfl | rfl
  · simp [hne]
  · simp [hne, draft_fill]

/-- **When a resolved configuration is in normal form.** Its extensions are not empty, and neither
start with a dot nor end in a blank. That none starts with a blank either, so that all are in normal
form, holds exactly if no extension was written with a blank behind its dots. Exactly then the
configuration is resolved to itself when its extensions are given again, and exactly then no
spelling decides which files are selected. -/
theorem resolved_normal_iff (h : resolve fs named cwd overrides = .ok c) :
    (∀ e ∈ c.extensions, e ≠ "" ∧ e.toList.head? ≠ some '.' ∧
      ∀ b ∈ e.toList.getLast?, Text.isBlank b = false) ∧
    ∃ given, merged fs named cwd overrides = .ok { c with extensions := given } ∧
      ((∀ e ∈ c.extensions, Normal e) ↔ ∀ w ∈ given, ¬ BlankAfterDots w) ∧
      (∀ root, root = overrides.root ∨ root = some c.root →
        (resolve fs named cwd ⟨root, c.extensions⟩ = .ok c ↔ ∀ w ∈ given, ¬ BlankAfterDots w)) ∧
      ∀ w ∈ given, (Walk.isWanted [strip w] = Walk.isWanted [plain w] ↔ ¬ BlankAfterDots w) := by
  obtain ⟨given, hmerged, hnormal⟩ := resolve_eq_ok.mp h
  obtain ⟨⟨hne, hleft⟩, hresult⟩ := Extension.normalize_eq_ok.mp hnormal
  have hmem : ∀ e, e ∈ c.extensions ↔ ∃ w ∈ given, strip w = e := by
    intro e
    rw [hresult, List.mem_eraseDups, List.mem_map]
  have hnormals : (∀ e ∈ c.extensions, Normal e) ↔ ∀ w ∈ given, ¬ BlankAfterDots w := by
    constructor
    · intro hall w hw
      exact (normal_strip_iff_not (hleft w hw)).mp (hall _ ((hmem _).mpr ⟨w, hw, rfl⟩))
    · intro hall e he
      obtain ⟨w, hw, rfl⟩ := (hmem e).mp he
      exact (normal_strip_iff_not (hleft w hw)).mpr (hall w hw)
  refine ⟨?_, given, hmerged, hnormals, ?_, fun w _ => Extension.isWanted_strip_iff⟩
  · intro e he
    obtain ⟨w, hw, rfl⟩ := (hmem e).mp he
    exact ⟨hleft w hw, Extension.head?_strip w, Extension.getLast?_strip w⟩
  · intro root hroot
    have hsome : c.extensions ≠ [] := by
      obtain ⟨w, hw⟩ := List.exists_mem_of_ne_nil given hne
      exact List.ne_nil_of_mem ((hmem _).mpr ⟨w, hw, rfl⟩)
    have hnodup : c.extensions.Nodup := hresult ▸ Extension.nodup_eraseDups _
    rw [← hnormals, ← Extension.normalize_eq_self hsome hnodup,
      resolve_of_merged (merged_again hmerged hsome hroot), normalised_eq_ok]
    constructor
    · rintro ⟨extensions, hagain, heq⟩
      obtain rfl : c.extensions = extensions := congrArg Config.extensions heq
      exact hagain
    · intro hagain
      exact ⟨c.extensions, hagain, rfl⟩

/-- A run on nothing but its command line. -/
theorem resolve_empty {es es' : List String} (hne : es ≠ [])
    (h : Extension.normalize es = .ok es') :
    resolve (.empty []) none (.ofString "") ⟨none, es⟩ =
      .ok { standard with extensions := es' } := by
  have hfile : (FileSystem.empty []).isFile (.child (.ofString "") fileName) = false := by cbv
  rw [resolve_of_consults (consults_empty hfile), draft_fill, if_neg hne]
  exact normalised_eq_ok.mpr ⟨es', h, rfl⟩

theorem resolved_normal_iff_twoSpellings :
    let fs : FileSystem := .empty []
    let overrides : Overrides := ⟨none, [" .dart", ". x"]⟩
    let c : Config := { standard with extensions := ["dart", " x"] }
    resolve fs none (.ofString "") overrides = .ok c ∧ ¬ (∀ e ∈ c.extensions, Normal e) ∧
      resolve fs none (.ofString "") ⟨none, c.extensions⟩ ≠ .ok c := by
  intro fs overrides c
  have hresolve : resolve fs none (.ofString "") overrides = .ok c :=
    resolve_empty (by decide) (by decide)
  obtain ⟨-, given, -, hnormals, hagain, -⟩ := resolved_normal_iff hresolve
  have hnot : ¬ (∀ e ∈ c.extensions, Normal e) := by
    intro hall
    have htrimmed := (hall " x" (by decide)).trimmed.head ' ' rfl
    revert htrimmed
    decide
  refine ⟨hresolve, hnot, ?_⟩
  intro hsame
  exact hnot (hnormals.mpr ((hagain none (Or.inl rfl)).mp hsame))

/-- A blank behind the dot stays, so files with the extension that is meant are not found, and what
comes out is another extension when it is given again. -/
theorem resolve_leaves_blank :
    (resolve (.empty []) none (.ofString "") ⟨none, [". dart"]⟩ =
        .ok { standard with extensions := [" dart"] } ∧
      resolve (.empty []) none (.ofString "") ⟨none, [" dart"]⟩ = .ok standard) ∧
    ¬ ∀ fs named cwd overrides c, resolve fs named cwd overrides = .ok c →
      (∀ e ∈ c.extensions, Normal e) ∧
        resolve fs named cwd ⟨overrides.root, c.extensions⟩ = .ok c := by
  have hfirst : resolve (.empty []) none (.ofString "") ⟨none, [". dart"]⟩ =
      .ok { standard with extensions := [" dart"] } := resolve_empty (by decide) (by decide)
  have hsecond : resolve (.empty []) none (.ofString "") ⟨none, [" dart"]⟩ = .ok standard :=
    resolve_empty (by decide) (by decide)
  refine ⟨⟨hfirst, hsecond⟩, fun hall => ?_⟩
  obtain ⟨-, hsame⟩ := hall _ _ _ _ _ hfirst
  have heq := Except.ok.inj (hsecond.symm.trans hsame)
  revert heq
  decide

end Config

end OpacityMigration
