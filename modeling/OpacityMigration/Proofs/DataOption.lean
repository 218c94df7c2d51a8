import OpacityMigration.CommandLine.Parser

/-!
# The option for data

The option `--json` says how a command answers. In front of a command line it has no say in how the
other arguments are understood: the command and its target are the same with it and without.

* `parseOptions_inJson`: the option before a command, for what comes after the command.
* `parseFrom_eq_run`: how a command line comes to a run.
* `parse_json`: the option in front of a command line.
-/

namespace OpacityMigration.CommandLine

variable {scope : Scope} {d d' : Draft} {args : List Argument}
  {request : Request} {command : Command} {json : Bool}

/-! ## Requests -/

/-- The same request, to be answered with data if it is a run. -/
def Request.inJson : Request → Request
  | .run _ command => .run true command
  | other => other

/-- Whether a request is for a text that the program prints about itself. -/
def Request.IsAbout (request : Request) : Prop :=
  request = .version ∨ ∃ topic, request = .help topic

theorem Request.IsAbout.inJson (h : request.IsAbout) : request.inJson = request := by
  rcases h with rfl | ⟨topic, rfl⟩
  · rfl
  · rfl

theorem Request.IsAbout.ne_run (h : request.IsAbout) : request ≠ .run json command := by
  rcases h with rfl | ⟨topic, rfl⟩
  · exact fun heq => by cases heq
  · exact fun heq => by cases heq

theorem Draft.request_inJson (d : Draft) (json : Bool) (scope : Scope) :
    (d.request json scope).inJson = d.request true scope := by
  cases scope <;> rfl

/-! ## One option -/

theorem bind_eq_ok {ε α β : Type} {x : Except ε α} {f : α → Except ε β} {b : β} :
    x >>= f = .ok b ↔ ∃ a, x = .ok a ∧ f a = .ok b := by
  cases x with
  | error e =>
    constructor
    · intro h
      cases h
    · rintro ⟨a, h, -⟩
      cases h
  | ok a =>
    constructor
    · intro h
      exact ⟨a, rfl, h⟩
    · rintro ⟨a, h, h'⟩
      cases h
      exact h'

theorem letters_isAbout {letters : Argument} (h : scope.letters letters = .ok request) :
    request.IsAbout := by
  unfold Scope.letters at h
  split at h
  · split at h
    · cases h
      exact Or.inr ⟨_, rfl⟩
    · split at h
      · cases h
        exact Or.inl rfl
      · cases h
  · cases h

theorem takeShort_eq_ok {letters : Argument} {progress : Progress}
    (h : takeShort scope d letters = .ok progress) :
    ∃ request, progress = .asks request ∧ request.IsAbout := by
  obtain ⟨request, hletters, h⟩ := bind_eq_ok.mp h
  obtain ⟨-, -, h⟩ := bind_eq_ok.mp h
  cases h
  exact ⟨request, rfl, letters_isAbout hletters⟩

theorem takeLong_asks {name : Argument} {value : Option Argument}
    (h : takeLong scope d name value = .ok (.asks request)) : request.IsAbout := by
  unfold takeLong at h
  split at h
  · cases h
  · obtain ⟨settled, -, h⟩ := bind_eq_ok.mp h
    obtain ⟨d', -, h⟩ := bind_eq_ok.mp h
    cases h
  · obtain ⟨settled, -, h⟩ := bind_eq_ok.mp h
    cases h
  · cases h
  · obtain ⟨settled, -, h⟩ := bind_eq_ok.mp h
    obtain ⟨d', -, h⟩ := bind_eq_ok.mp h
    cases h
  · obtain ⟨settled, -, h⟩ := bind_eq_ok.mp h
    cases h
    exact Or.inr ⟨_, rfl⟩
  · obtain ⟨settled, -, h⟩ := bind_eq_ok.mp h
    cases h
    exact Or.inl rfl

theorem meaning_program {name : Argument} {meaning : Meaning}
    (h : Scope.program.meaning? name = some meaning) :
    meaning = .flag .json ∨ meaning = .help ∨ meaning = .version := by
  obtain ⟨⟨known, found⟩, hfind, rfl⟩ := Option.map_eq_some_iff.mp h
  have hknown : (known, found) ∈ Scope.program.options := List.mem_of_find?_eq_some hfind
  simp only [Scope.options, List.mem_cons, Prod.mk.injEq, List.not_mem_nil, or_false] at hknown
  rcases hknown with ⟨-, hfound⟩ | ⟨-, hfound⟩ | ⟨-, hfound⟩
  · exact Or.inl hfound
  · exact Or.inr (Or.inl hfound)
  · exact Or.inr (Or.inr hfound)

/-- The one option of the program that asks for nothing is the one for data. -/
theorem takeLong_program {name : Argument} {value : Option Argument}
    (h : takeLong .program d name value = .ok (.goOn d')) (hpending : d.pending = none) :
    d.json = false ∧ d' = { d with json := true } := by
  have hsettle : d.settle = .ok d := by rw [Draft.settle, hpending]
  unfold takeLong at h
  split at h
  · cases h
  · rename_i hmeaning
    simpa using meaning_program hmeaning
  · rename_i hmeaning
    simpa using meaning_program hmeaning
  · cases h
  · rename_i flag hmeaning
    obtain rfl : flag = .json := by simpa using meaning_program hmeaning
    obtain ⟨settled, hsettled, hrest⟩ := bind_eq_ok.mp h
    obtain ⟨switched, hswitch, hgoOn⟩ := bind_eq_ok.mp hrest
    cases hsettle.symm.trans hsettled
    cases hgoOn
    simp only [Draft.switch] at hswitch
    split at hswitch
    · cases hswitch
    · rename_i hjson
      cases hswitch
      exact ⟨Bool.eq_false_iff.mpr hjson, rfl⟩
  · obtain ⟨settled, -, h⟩ := bind_eq_ok.mp h
    cases h
  · obtain ⟨settled, -, h⟩ := bind_eq_ok.mp h
    cases h

/-! ## Options after a command -/

/-- What is true of the rest of a command line is true of the whole, as an option that ends it asks
for no run. -/
theorem goOn_inJson {x : Except Misuse Progress} {f g : Draft → Except Misuse Request}
    (hasks : ∀ request, x = .ok (.asks request) → request.IsAbout)
    (hgoOn : ∀ d, f d = (g d).map Request.inJson) :
    (x >>= fun progress => match progress with
      | .goOn d => f d
      | .asks request => .ok request) =
    (x >>= fun progress => match progress with
      | .goOn d => g d
      | .asks request => .ok request).map Request.inJson := by
  rcases x with misuse | d | request
  · rfl
  · exact hgoOn d
  · exact congrArg Except.ok (hasks request rfl).inJson.symm

/-- The option in front of a command has no say in how the options of the command are understood. -/
theorem parseOptions_inJson (scope : Scope) (json : Bool) (d : Draft) (args : List Argument) :
    parseOptions scope true d args = (parseOptions scope json d args).map Request.inJson := by
  have hend : ∀ d : Draft, d.settle.map (·.request true scope) =
      (d.settle.map (·.request json scope)).map Request.inJson := by
    intro d
    cases d.settle with
    | error misuse => rfl
    | ok d => simp only [Except.map, Draft.request_inJson]
  induction args generalizing d with
  | nil => exact hend d
  | cons arg args ih =>
    simp only [parseOptions]
    split
    · cases args with
      | nil => exact hend d
      | cons next args => rfl
    · exact goOn_inJson (fun request => takeLong_asks) ih
    · refine goOn_inJson (fun request h => ?_) ih
      obtain ⟨about, heq, habout⟩ := takeShort_eq_ok h
      cases heq
      exact habout
    · split
      · exact ih _
      · rfl

/-! ## Whole command lines -/

theorem parseHelp_isAbout (h : parseHelp args = .ok request) : request.IsAbout := by
  unfold parseHelp at h
  split at h
  · cases h
    exact Or.inr ⟨_, rfl⟩
  · split at h
    · cases h
    · cases h
      exact Or.inr ⟨_, rfl⟩
    · cases h

/-- How a command line comes to a run: no command is named, or the option for data comes first, or
a command and its options do. -/
theorem parseFrom_eq_run (hpending : d.pending = none)
    (h : parseFrom d args = .ok (.run json command)) :
    ((∀ d', parseFrom d' args = .ok (.run d'.json .standard)) ∧
      json = d.json ∧ command = .standard) ∨
    (d.json = false ∧
      ∃ rest, parseFrom { d with json := true } rest = .ok (.run json command)) ∨
    ∃ scope rest, (∀ d', parseFrom d' args = parseOptions scope d'.json .empty rest) ∧
      parseOptions scope d.json .empty rest = .ok (.run json command) := by
  cases args with
  | nil =>
    cases h
    exact Or.inl ⟨fun d' => rfl, rfl, rfl⟩
  | cons arg args =>
    cases hform : form arg with
    | separator =>
      simp only [parseFrom, hform] at h ⊢
      cases args with
      | nil =>
        cases h
        exact Or.inl ⟨fun d' => rfl, rfl, rfl⟩
      | cons next args =>
        dsimp only at h
        split at h
        · cases h
        · cases h
    | long name value =>
      simp only [parseFrom, hform] at h
      obtain ⟨progress, htake, h⟩ := bind_eq_ok.mp h
      cases progress with
      | goOn d' =>
        obtain ⟨hjson, rfl⟩ := takeLong_program htake hpending
        exact Or.inr (Or.inl ⟨hjson, args, h⟩)
      | asks request =>
        cases h
        exact absurd rfl (takeLong_asks htake).ne_run
    | short letters =>
      simp only [parseFrom, hform] at h
      obtain ⟨progress, htake, h⟩ := bind_eq_ok.mp h
      obtain ⟨request, rfl, habout⟩ := takeShort_eq_ok htake
      cases h
      exact absurd rfl habout.ne_run
    | plain =>
      simp only [parseFrom, hform] at h ⊢
      cases htopic : topic? arg with
      | none =>
        rw [htopic] at h
        cases h
      | some topic =>
        rw [htopic] at h
        cases topic with
        | program => cases h
        | migrate => exact Or.inr (Or.inr ⟨.migrate, args, fun d' => rfl, h⟩)
        | scan => exact Or.inr (Or.inr ⟨.scan, args, fun d' => rfl, h⟩)
        | help => exact absurd rfl (parseHelp_isAbout h).ne_run

/-- Once data are asked for, a run answers with data. -/
theorem parseFrom_of_json (hjson : d.json = true) (hpending : d.pending = none)
    (h : parseFrom d args = .ok (.run json command)) : json = true := by
  rcases parseFrom_eq_run hpending h with ⟨-, heq, -⟩ | ⟨hfalse, -⟩ | ⟨scope, rest, -, hrest⟩
  · rw [heq, hjson]
  · rw [hjson] at hfalse
    cases hfalse
  · rw [hjson, parseOptions_inJson scope true] at hrest
    cases hrequest : parseOptions scope true .empty rest with
    | error misuse =>
      rw [hrequest] at hrest
      cases hrest
    | ok request =>
      rw [hrequest] at hrest
      cases request <;> cases hrest
      rfl

/-- **The option for data.** In front of a command line that asks for an answer in text, it makes
the command answer with data, and changes nothing else. -/
theorem parse_json (h : parse args = .ok (.run false command)) :
    parse (argument "--json" :: args) = .ok (.run true command) := by
  have hform : form (argument "--json") = .long (argument "json") none := rfl
  have htake : takeLong .program .empty (argument "json") none =
      .ok (.goOn { Draft.empty with json := true }) := rfl
  have hfirst : parse (argument "--json" :: args) =
      parseFrom { Draft.empty with json := true } args := by
    simp only [parse, parseFrom, hform, htake]
    rfl
  rw [hfirst]
  rcases parseFrom_eq_run rfl h with ⟨hall, -, rfl⟩ | ⟨-, rest, hrest⟩ | ⟨scope, rest, hall, hrest⟩
  · exact hall _
  · cases parseFrom_of_json rfl rfl hrest
  · rw [hall, parseOptions_inJson scope false]
    exact congrArg (Except.map Request.inJson) hrest

end OpacityMigration.CommandLine
