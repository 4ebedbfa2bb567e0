import Mathlib.Data.List.Nodup
import Thesaurus.CommandLine.Arguments
import Thesaurus.Proofs.Text.Reader

/-!
# Written arguments are read again

Every setting can be written as one argument, and every invocation as a subcommand with settings
after it. They are read again, whatever paths and tags consist of, and in whatever order they are
given.

- `Setting.argument`: the argument that makes a setting.
- `readOptions_arguments`: different settings are read one after the other.
- `Invocation.arguments`: the arguments that write an invocation.
- `ofArguments_arguments`: they are read as the invocation.
- `ofArguments_perm`: the order of settings makes no difference.
-/

namespace Thesaurus

namespace CommandLine

/-! ## Settings as arguments -/

/-- The word that asks for a format. No word asks for the format of JSON. -/
def keyword : Rdf.Format → String
  | .turtle => "turtle"
  | .nTriples => "ntriples"
  | .nQuads => "nquads"
  | .triG => "trig"
  | .n3 => "n3"
  | .rdfXml => "rdfxml"
  | .jsonLd => ""

section

variable {s : Setting} {settings before : List Setting} {allowed : Setting → Bool}

namespace Setting

/-- The value of the option that makes a setting, if it has one. -/
def value? : Setting → Option String
  | configuration path | input path => some path
  | format f => some (keyword f)
  | notationFormat f => some f.name
  | language tag => some tag
  | _ => none

/-- A setting that an option can make: paths are not empty, and the format is one that can be asked
for. -/
def IsLawful : Setting → Prop
  | configuration path | input path => path ≠ ""
  | format f => f ≠ .jsonLd
  | _ => True

/-- The argument that makes a setting: its option, and behind an equals sign its value. -/
def argument (s : Setting) : String :=
  match s.value? with
  | some value => "--" ++ s.option ++ "=" ++ value
  | none => "--" ++ s.option

/-- The names of options have no equals sign. -/
theorem option_plain (s : Setting) : s.option ≠ "" ∧ '=' ∉ s.option.toList := by
  cases s <;> simp [option]

theorem keywords_keyword {f : Rdf.Format} (h : f ≠ .jsonLd) :
    Rdf.Format.keywords.lookup (keyword f) = some f := by
  cases f <;> first | rfl | exact absurd rfl h

theorem ofName?_name (f : Notation.Format) : Notation.Format.ofName? f.name = some f := by
  cases f <;> rfl

/-- The value of a setting is read as the setting. -/
theorem reader?_option {value : String} (h : s.IsLawful) (hvalue : s.value? = some value) :
    ∃ read, reader? s.option = some read ∧ read value = some s := by
  cases s with
  | configuration path =>
    cases hvalue
    exact ⟨ofPath? configuration, rfl, by simp [ofPath?, show value ≠ "" from h]⟩
  | input path =>
    cases hvalue
    exact ⟨ofPath? input, rfl, by simp [ofPath?, show value ≠ "" from h]⟩
  | format f =>
    cases hvalue
    exact ⟨_, rfl, by simp [keywords_keyword h]⟩
  | notationFormat f =>
    cases hvalue
    exact ⟨_, rfl, by simp [ofName?_name]⟩
  | language tag =>
    cases hvalue
    exact ⟨_, rfl, rfl⟩
  | schemes => cases hvalue
  | collections => cases hvalue
  | resolveUrls => cases hvalue
  | sortByNotation => cases hvalue
  | pretty => cases hvalue

/-- A setting without a value is found by its option. -/
theorem ofFlag?_option (hvalue : s.value? = none) :
    reader? s.option = none ∧ ofFlag? s.option = some s := by
  cases s <;> simp_all [value?, reader?, option, ofFlag?, flags]

end Setting

/-! ## One argument -/

/-- An option is split from what follows it, an equals sign with a value or nothing. -/
theorem splitOption?_append {option : String} (h : option ≠ "" ∧ '=' ∉ option.toList)
    {rest : List Char} (hrest : ∀ c ∈ rest.head?, c = '=') :
    splitOption? (String.ofList ('-' :: '-' :: (option.toList ++ rest))) =
      some (option, rest.tail?.map String.ofList) := by
  obtain ⟨hne, hplain⟩ := h
  have hfront : ∀ c ∈ option.toList, (c != '=') = true := fun c hc => by
    rw [bne_iff_ne]
    rintro rfl
    exact hplain hc
  obtain ⟨htake, hdrop⟩ := Text.span_append rest hfront fun c hc => by simp [hrest c hc]
  obtain ⟨c, name, hname⟩ := List.exists_cons_of_ne_nil (l := option.toList) (by simpa using hne)
  rw [hname, List.cons_append] at htake hdrop
  simp only [splitOption?, String.toList_ofList, hname, List.cons_append, htake, hdrop]
  rw [← hname, String.ofList_toList]
  cases rest <;> rfl

/-- The argument of a setting is split into its option and its value. -/
theorem splitOption?_argument (s : Setting) :
    splitOption? s.argument = some (s.option, s.value?) := by
  unfold Setting.argument
  split
  · next value hvalue =>
    have hchars : "--" ++ s.option ++ "=" ++ value =
        String.ofList ('-' :: '-' :: (s.option.toList ++ '=' :: value.toList)) := by
      rw [← String.toList_inj]
      simp
    rw [hchars, splitOption?_append s.option_plain (by simp), hvalue]
    simp
  · next hvalue =>
    have hchars : "--" ++ s.option = String.ofList ('-' :: '-' :: (s.option.toList ++ [])) := by
      rw [← String.toList_inj]
      simp
    rw [hchars, splitOption?_append s.option_plain (by simp), hvalue]
    rfl

/-- An argument of a setting looks like an option, and does not end the options. -/
theorem isOptionLike_argument (s : Setting) :
    s.argument ≠ "--" ∧ isOptionLike s.argument = true := by
  have hsplit := splitOption?_argument s
  unfold splitOption? at hsplit
  split at hsplit
  · next c rest hchars =>
    refine ⟨fun heq => ?_, by simp [isOptionLike, hchars]⟩
    rw [heq] at hchars
    simp at hchars
  · cases hsplit

/-! ## Options -/

/-- The options of settings differ. -/
def Distinct (settings : List Setting) : Prop :=
  (settings.map (·.option)).Nodup

theorem addSetting_new {later : List Setting} (hallowed : allowed s = true)
    (hdistinct : Distinct (before ++ s :: later)) :
    addSetting allowed before (some s) = .ok (before ++ [s]) := by
  have hnew : before.any (·.option == s.option) = false := by
    rw [List.any_eq_false]
    intro other hother heq
    rw [Distinct, List.map_append, List.nodup_append] at hdistinct
    exact hdistinct.2.2 _ (List.mem_map_of_mem hother) _ List.mem_cons_self (beq_iff_eq.1 heq)
  simp [addSetting, hallowed, hnew]

/-- Settings are read one after the other, up to an argument that is none. -/
theorem readOptions_arguments (top : Bool) (rest : List String)
    (hlawful : ∀ s ∈ settings, s.IsLawful) (hallowed : ∀ s ∈ settings, allowed s = true)
    (hdistinct : Distinct (before ++ settings))
    (hrest : ∀ argument ∈ rest.head?, isOptionLike argument = false) :
    readOptions top allowed before (settings.map Setting.argument ++ rest) =
      .ok (before ++ settings, rest) := by
  -- by induction on the settings, with all that were read before
  induction settings generalizing before with
  | nil =>
    rw [List.map_nil, List.nil_append, List.append_nil]
    match rest, hrest with
    | [], _ => rw [readOptions]
    | argument :: rest, hrest =>
      have hplain := hrest argument rfl
      have hend : (argument == "--") = false := by
        rw [beq_eq_false_iff_ne]
        rintro rfl
        exact absurd hplain (by decide)
      simp [readOptions, hend, hplain]
  | cons s settings ih =>
    rw [List.forall_mem_cons] at hlawful hallowed
    obtain ⟨hend, hlike⟩ := isOptionLike_argument s
    have hlater : readOptions top allowed (before ++ [s]) (settings.map Setting.argument ++ rest) =
        .ok (before ++ [s] ++ settings, rest) :=
      ih hlawful.2 hallowed.2 (by simpa using hdistinct)
    have hadd := addSetting_new hallowed.1 hdistinct
    rw [List.map_cons, List.cons_append, readOptions]
    simp only [beq_false_of_ne hend, Bool.false_eq_true, if_false, hlike, Bool.not_true,
      splitOption?_argument]
    -- a value stands in the argument itself, so that the next one is not looked at
    cases hvalue : s.value? with
    | some value =>
      obtain ⟨read, hreader, hread⟩ := Setting.reader?_option hlawful.1 hvalue
      simp only [hreader, hread, hadd]
      simpa using hlater
    | none =>
      obtain ⟨hreader, hflag⟩ := Setting.ofFlag?_option hvalue
      simp only [hreader, hflag, hadd]
      simpa using hlater

end

/-! ## Invocations -/

/-- The settings that come to what is changed about a configuration. -/
def Overrides.settings (o : Overrides) : List Setting :=
  (if o.schemes then [.schemes] else []) ++ (if o.collections then [.collections] else []) ++
    (if o.resolveUrls then [.resolveUrls] else []) ++
    o.language.elim [] (fun tag => [.language tag]) ++
    o.sorting.elim [] fun s =>
      .notationFormat s.format :: if s.axis = .byNotation then [.sortByNotation] else []

/-- The settings that come to a source. -/
def Source.settings (source : Source) : List Setting :=
  .input source.path :: source.format.elim [] fun f => [.format f]

/-- The settings that come to what is to be printed. -/
def Command.settings : Command → List Setting
  | build source pretty => source.settings ++ if pretty then [.pretty] else []
  | stats source => source.settings
  | config => []

/-- The source of what is to be printed. -/
def Command.source? : Command → Option Source
  | build source _ | stats source => some source
  | config => none

/-- The subcommand that prints it. -/
def Command.subcommand : Command → Subcommand
  | build _ _ => .build
  | stats _ => .stats
  | config => .config

namespace Invocation

/-- The settings of an invocation. -/
def settings (i : Invocation) : List Setting :=
  i.configuration.elim [] (fun path => [.configuration path]) ++ i.overrides.settings ++
    i.command.settings

/-- The arguments that write an invocation. -/
def arguments (i : Invocation) : List String :=
  i.command.subcommand.name :: i.settings.map Setting.argument

/-- An invocation that arguments can write: paths are not empty, and the format is one that can be
asked for. -/
def IsLawful (i : Invocation) : Prop :=
  ∀ s ∈ i.settings, s.IsLawful

/-- The invocation that the settings of a subcommand come to. -/
def ofSettings? (c : Subcommand) (settings : List Setting) : Option Invocation :=
  (Overrides.ofSettings? settings).bind fun overrides =>
    (c.toCommand? settings).map fun command =>
      ⟨configurationPath? settings, overrides, command⟩

end Invocation

variable {i : Invocation} {settings others : List Setting}

theorem ofName?_subcommand (c : Subcommand) : Subcommand.ofName? c.name = some c := by
  cases c <;> rfl

/-- The arguments of a subcommand are read as what its settings come to. -/
theorem ofArguments_settings (c : Subcommand) (hlawful : ∀ s ∈ settings, s.IsLawful)
    (hallowed : ∀ s ∈ settings, c.allows s = true) (hdistinct : Distinct settings) :
    Invocation.ofArguments (c.name :: settings.map Setting.argument) =
      (Invocation.ofSettings? c settings).elim (.error .misuse) .ok := by
  -- no settings stand before the subcommand
  have htop : readOptions true (fun s => s.option == "config") []
      ([].map Setting.argument ++ c.name :: settings.map Setting.argument) =
        .ok ([] ++ [], c.name :: settings.map Setting.argument) :=
    readOptions_arguments true _ nofun nofun List.nodup_nil (by cases c <;> (rintro _ ⟨⟩; rfl))
  rw [List.map_nil, List.nil_append, List.nil_append] at htop
  have hread : readOptions false c.allows [] (settings.map Setting.argument ++ []) =
      .ok ([] ++ settings, []) :=
    readOptions_arguments false [] hlawful hallowed hdistinct nofun
  rw [List.append_nil, List.nil_append] at hread
  rw [Invocation.ofArguments, htop]
  simp only [ofName?_subcommand, Invocation.ofSubcommand, hread, Invocation.ofSettings?]
  cases Overrides.ofSettings? settings with
  | none => rfl
  | some overrides =>
    cases c.toCommand? settings with
    | none => rfl
    | some command => simp [configurationPath?]

/-! ## Which settings are made -/

/-- Settings whose options differ hold at most one of each option. -/
theorem findSome?_eq_some_iff {α : Type} {pick : Setting → Option α} {name : String} {a : α}
    (hdistinct : Distinct settings) (hpick : ∀ s a, pick s = some a → s.option = name) :
    settings.findSome? pick = some a ↔ ∃ s ∈ settings, pick s = some a := by
  constructor
  · exact List.exists_of_findSome?_eq_some
  · rintro ⟨s, hs, ha⟩
    have hsome : (settings.findSome? pick).isSome = true :=
      List.findSome?_isSome_iff.2 ⟨s, hs, by simp [ha]⟩
    obtain ⟨b, hb⟩ := Option.isSome_iff_exists.1 hsome
    obtain ⟨t, ht, hbt⟩ := List.exists_of_findSome?_eq_some hb
    have hst : s = t :=
      List.inj_on_of_nodup_map hdistinct hs ht ((hpick s a ha).trans (hpick t b hbt).symm)
    rw [hb, ← hbt, ← hst, ha]

/-- What an invocation makes of each option. -/
def Invocation.Makes (i : Invocation) : Setting → Prop
  | .configuration path => i.configuration = some path
  | .schemes => i.overrides.schemes = true
  | .collections => i.overrides.collections = true
  | .resolveUrls => i.overrides.resolveUrls = true
  | .language tag => i.overrides.language = some tag
  | .notationFormat f => ∃ s, i.overrides.sorting = some s ∧ f = s.format
  | .sortByNotation => ∃ s, i.overrides.sorting = some s ∧ s.axis = .byNotation
  | .input path => ∃ source, i.command.source? = some source ∧ path = source.path
  | .format f => ∃ source, i.command.source? = some source ∧ source.format = some f
  | .pretty => ∃ source, i.command = .build source true

theorem mem_elim {α : Type} {o : Option α} {f : α → List Setting} {s : Setting} :
    s ∈ o.elim [] f ↔ ∃ a, o = some a ∧ s ∈ f a := by
  cases o <;> simp

theorem mem_settings {s : Setting} : s ∈ i.settings ↔ i.Makes s := by
  obtain ⟨configuration, ⟨schemes, collections, urls, language, sorting⟩, command⟩ := i
  simp only [Invocation.settings, Overrides.settings, List.mem_append, mem_elim]
  cases command <;> cases s <;>
    simp [Invocation.Makes, Command.settings, Command.source?, Source.settings, mem_elim]

/-- The names of all options, in the order in which the settings of an invocation are written. -/
def optionNames : List String :=
  ["config", "schemes", "collections", "resolve-urls", "language", "notation", "sort-by-notation",
    "input", "format", "pretty"]

theorem distinct_settings (i : Invocation) : Distinct i.settings := by
  -- the options stand in a fixed order, each at most once
  have hsublist : (i.settings.map (·.option)).Sublist optionNames := by
    obtain ⟨configuration, ⟨schemes, collections, urls, language, sorting⟩, command⟩ := i
    simp only [Invocation.settings, Overrides.settings, List.map_append, List.append_assoc]
    have honly (b : Bool) (s : Setting) :
        ((if b then [s] else []).map (·.option)).Sublist [s.option] := by
      cases b <;> simp
    have hconfiguration : ((configuration.elim [] fun path => [Setting.configuration path]).map
        (·.option)).Sublist ["config"] := by
      cases configuration <;> simp [Setting.option]
    have hlanguage : ((language.elim [] fun tag => [Setting.language tag]).map
        (·.option)).Sublist ["language"] := by
      cases language <;> simp [Setting.option]
    have hsorting : ((sorting.elim [] fun s => Setting.notationFormat s.format ::
        if s.axis = .byNotation then [.sortByNotation] else []).map
        (·.option)).Sublist ["notation", "sort-by-notation"] := by
      cases sorting with
      | none => simp
      | some s => cases h : s.axis <;> simp [h, Setting.option]
    have hcommand : (command.settings.map (·.option)).Sublist ["input", "format", "pretty"] := by
      have hformat (source : Source) : ((source.format.elim [] fun f => [Setting.format f]).map
          (·.option)).Sublist ["format"] := by
        cases source.format <;> simp [Setting.option]
      cases command with
      | build source pretty =>
        rw [Command.settings, Source.settings, List.cons_append, List.map_cons, List.map_append]
        exact ((hformat source).append (honly pretty .pretty)).cons_cons _
      | stats source =>
        exact ((hformat source).trans (List.sublist_append_left ["format"] ["pretty"])).cons_cons _
      | config => exact List.nil_sublist _
    exact hconfiguration.append <| (honly schemes _).append <| (honly collections _).append <|
      (honly urls _).append <| hlanguage.append <| hsorting.append hcommand
  have hnames : optionNames.Nodup := by decide
  exact hnames.sublist hsublist

theorem allows_settings (i : Invocation) {s : Setting} (h : s ∈ i.settings) :
    i.command.subcommand.allows s = true := by
  rw [mem_settings] at h
  cases hcommand : i.command <;> cases s <;>
    simp_all [Command.subcommand, Subcommand.allows, Invocation.Makes, Command.source?]

/-- What is made of an option is found among the settings. -/
theorem findSome?_settings {α : Type} {pick : Setting → Option α} {found : Option α}
    (make : α → Setting) (hpick : ∀ s a, pick s = some a ↔ s = make a)
    (hoption : ∀ a b, (make a).option = (make b).option)
    (hfound : ∀ a, i.Makes (make a) ↔ found = some a) : i.settings.findSome? pick = found := by
  refine Option.ext fun a => ?_
  have hname : ∀ s b, pick s = some b → s.option = (make a).option := fun s b hs =>
    ((hpick s b).1 hs).symm ▸ hoption b a
  rw [findSome?_eq_some_iff (distinct_settings i) hname, ← hfound, ← mem_settings]
  simp only [hpick, exists_eq_right]

theorem contains_settings {s : Setting} {b : Bool} (h : i.Makes s ↔ b = true) :
    i.settings.contains s = b :=
  Bool.eq_iff_iff.2 (List.contains_iff_mem.trans (mem_settings.trans h))

theorem configurationPath?_settings (i : Invocation) :
    configurationPath? i.settings = i.configuration :=
  findSome?_settings .configuration (by rintro (_ | _) a <;> simp [Setting.configuration?])
    (fun _ _ => rfl) fun _ => Iff.rfl

theorem overrides_settings (i : Invocation) :
    Overrides.ofSettings? i.settings = some i.overrides := by
  have hlanguage : i.settings.findSome? Setting.language? = i.overrides.language :=
    findSome?_settings .language (by rintro (_ | _) a <;> simp [Setting.language?])
      (fun _ _ => rfl) fun _ => Iff.rfl
  have hformat : i.settings.findSome? Setting.notationFormat? =
      i.overrides.sorting.map (·.format) :=
    findSome?_settings .notationFormat (by rintro (_ | _) a <;> simp [Setting.notationFormat?])
      (fun _ _ => rfl) fun f => by
        rw [Option.map_eq_some_iff]
        exact exists_congr fun s => and_congr_right fun _ => eq_comm
  have hsort : i.settings.contains .sortByNotation =
      i.overrides.sorting.any (·.axis = .byNotation) :=
    contains_settings (by simp [Invocation.Makes, Option.any_eq_true])
  have hschemes : i.settings.contains .schemes = i.overrides.schemes := contains_settings Iff.rfl
  have hcollections : i.settings.contains .collections = i.overrides.collections :=
    contains_settings Iff.rfl
  have hurls : i.settings.contains .resolveUrls = i.overrides.resolveUrls :=
    contains_settings Iff.rfl
  unfold Overrides.ofSettings?
  simp only [hlanguage, hformat, hsort, hschemes, hcollections, hurls]
  obtain ⟨_, ⟨schemes, collections, urls, language, _ | ⟨f, _ | _⟩⟩, command⟩ := i <;> rfl

theorem source_settings (i : Invocation) : Source.ofSettings? i.settings = i.command.source? := by
  have hinput : i.settings.findSome? Setting.input? = i.command.source?.map (·.path) :=
    findSome?_settings .input (by rintro (_ | _) a <;> simp [Setting.input?]) (fun _ _ => rfl)
      fun path => by
        rw [Option.map_eq_some_iff]
        exact exists_congr fun source => and_congr_right fun _ => eq_comm
  have hformat : i.settings.findSome? Setting.format? = i.command.source?.bind (·.format) :=
    findSome?_settings .format (by rintro (_ | _) a <;> simp [Setting.format?]) (fun _ _ => rfl)
      fun f => by rw [Option.bind_eq_some_iff, Invocation.Makes]
  rw [Source.ofSettings?, hinput, hformat]
  cases i.command.source? <;> rfl

/-- The settings of an invocation come to it. -/
theorem ofSettings?_settings (i : Invocation) :
    Invocation.ofSettings? i.command.subcommand i.settings = some i := by
  have hcommand : i.command.subcommand.toCommand? i.settings = some i.command := by
    have hsource := source_settings i
    cases h : i.command with
    | build source pretty =>
      have hpretty : i.settings.contains .pretty = pretty := contains_settings (by
        simp [Invocation.Makes, h])
      rw [h] at hsource
      simp only [Command.subcommand, Subcommand.toCommand?, hsource, Command.source?, hpretty,
        Option.map_some]
    | stats source =>
      rw [h] at hsource
      simp [Command.subcommand, Subcommand.toCommand?, hsource, Command.source?]
    | config => rfl
  rw [Invocation.ofSettings?, overrides_settings, Option.bind_some, configurationPath?_settings,
    hcommand]
  rfl

/-- The arguments of an invocation are read as the invocation. -/
theorem ofArguments_arguments (h : i.IsLawful) : Invocation.ofArguments i.arguments = .ok i := by
  rw [Invocation.arguments, ofArguments_settings _ h (fun _ => allows_settings i)
    (distinct_settings i), ofSettings?_settings]
  rfl

/-! ## The order of settings -/

theorem Distinct.perm (hdistinct : Distinct settings) (h : settings.Perm others) :
    Distinct others :=
  (h.map _).nodup hdistinct

theorem findSome?_perm {α : Type} {pick : Setting → Option α} (name : String)
    (hdistinct : Distinct settings) (h : settings.Perm others)
    (hpick : ∀ s a, pick s = some a → s.option = name) :
    settings.findSome? pick = others.findSome? pick := by
  refine Option.ext fun a => ?_
  rw [findSome?_eq_some_iff hdistinct hpick, findSome?_eq_some_iff (hdistinct.perm h) hpick]
  exact exists_congr fun s => and_congr_left fun _ => h.mem_iff

/-- What settings come to does not depend on their order. -/
theorem ofSettings?_perm (c : Subcommand) (hdistinct : Distinct settings)
    (h : settings.Perm others) :
    Invocation.ofSettings? c settings = Invocation.ofSettings? c others := by
  have hconfiguration : settings.findSome? Setting.configuration? = others.findSome? _ :=
    findSome?_perm "config" hdistinct h (by rintro (_ | _) a ⟨⟩; rfl)
  have hinput : settings.findSome? Setting.input? = others.findSome? _ :=
    findSome?_perm "input" hdistinct h (by rintro (_ | _) a ⟨⟩; rfl)
  have hformat : settings.findSome? Setting.format? = others.findSome? _ :=
    findSome?_perm "format" hdistinct h (by rintro (_ | _) a ⟨⟩; rfl)
  have hnotations : settings.findSome? Setting.notationFormat? = others.findSome? _ :=
    findSome?_perm "notation" hdistinct h (by rintro (_ | _) a ⟨⟩; rfl)
  have hlanguage : settings.findSome? Setting.language? = others.findSome? _ :=
    findSome?_perm "language" hdistinct h (by rintro (_ | _) a ⟨⟩; rfl)
  have hcontains (s : Setting) : settings.contains s = others.contains s := by
    rw [Bool.eq_iff_iff, List.contains_iff_mem, List.contains_iff_mem, h.mem_iff]
  have hoverrides : Overrides.ofSettings? settings = Overrides.ofSettings? others := by
    simp only [Overrides.ofSettings?, hnotations, hlanguage, hcontains]
  have hcommand : c.toCommand? settings = c.toCommand? others := by
    cases c <;> simp only [Subcommand.toCommand?, Source.ofSettings?, hinput, hformat, hcontains]
  rw [Invocation.ofSettings?, Invocation.ofSettings?, hoverrides, hcommand, configurationPath?,
    configurationPath?, hconfiguration]

/-- The arguments of a subcommand are read alike in whatever order they are given. -/
theorem ofArguments_perm (c : Subcommand) (hlawful : ∀ s ∈ settings, s.IsLawful)
    (hallowed : ∀ s ∈ settings, c.allows s = true) (hdistinct : Distinct settings)
    (h : settings.Perm others) :
    Invocation.ofArguments (c.name :: settings.map Setting.argument) =
      Invocation.ofArguments (c.name :: others.map Setting.argument) := by
  rw [ofArguments_settings c hlawful hallowed hdistinct,
    ofArguments_settings c (fun s hs => hlawful s (h.mem_iff.2 hs))
      (fun s hs => hallowed s (h.mem_iff.2 hs)) (hdistinct.perm h),
    ofSettings?_perm c hdistinct h]

end CommandLine

end Thesaurus
