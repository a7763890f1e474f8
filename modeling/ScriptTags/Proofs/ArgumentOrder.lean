import ScriptTags.Proofs.Choices

/-!
# The order of arguments

A command line is written by a grammar of its own. Options stand in **groups** of arguments: behind
one hyphen any number of switches and at most one setting at their end, with its value attached or
in an argument after it (`Bundle`), or behind two hyphens one option by its name (`Group`). Groups
and paths may follow each other in any order (`Interleaved`), and `--` turns everything behind it
into paths.

What has been read at any point of a command line is known by what it settles to. A group adds its
choices to that and a path adds itself (`Group.reads`, `Interleaved.reads`); choices and paths do
not look at each other, and neither do choices of different options. So every command line that
makes a selection and names some paths, in whatever order, is read to the same options
(`parse_interleaved`).
-/

namespace ScriptTags.CommandLine

/-! ### How options are written -/

/-- The letter of a switch behind one hyphen. -/
def Switch.letter? : Switch → Option Char
  | recursive => some 'R'
  | unsorted => none
  | verbose => some 'v'
  | help false => some 'h'
  | help true => none
  | version => some 'V'

/-- The name of a switch behind two hyphens. -/
def Switch.name? : Switch → Option String
  | recursive => some "recursive"
  | unsorted => some "unsorted"
  | verbose => some "verbose"
  | help false => none
  | help true => some "help"
  | version => some "version"

/-- The letter of a setting behind one hyphen. -/
def Setting.letter? : Setting → Option Char
  | format => some 'f'
  | output => some 'o'
  | maxDepth | config => none

/-- The name of a setting behind two hyphens. -/
def Setting.name : Setting → String
  | format => "format"
  | output => "output"
  | maxDepth => "max-depth"
  | config => "config"

/-- `Bundle choices letters more`: the **letters** behind one hyphen, with the arguments `more`
after theirs, make these choices. -/
inductive Bundle : List Choice → Bytes → List Bytes → Prop
  | nil : Bundle [] [] []
  | switch {s : Switch} {letter : Byte} {choices : List Choice} {letters : Bytes}
      {more : List Bytes} (hletter : s.letter? = some (Char.ofUInt8 letter))
      (rest : Bundle choices letters more) :
      Bundle (.switch s :: choices) (letter :: letters) more
  | apart {s : Setting} {letter : Byte} (hletter : s.letter? = some (Char.ofUInt8 letter))
      (value : Bytes) : Bundle [.setting s value] [letter] [value]
  | attached {s : Setting} {letter : Byte} (hletter : s.letter? = some (Char.ofUInt8 letter))
      (value : Bytes) : Bundle [.setting s value] (letter :: value) []
  | equals {s : Setting} {letter : Byte} (hletter : s.letter? = some (Char.ofUInt8 letter))
      (value : Bytes) : Bundle [.setting s value] (letter :: Byte.equals :: value) []

/-- `Group choices words`: the arguments that **belong together** make these choices. -/
inductive Group : List Choice → List Bytes → Prop
  | short {choices : List Choice} {letters : Bytes} {more : List Bytes}
      (bundle : Bundle choices letters more) (hne : letters ≠ []) :
      Group choices ((Byte.hyphen :: letters) :: more)
  | longSwitch {s : Switch} {name : String} (hname : s.name? = some name) :
      Group [.switch s] [Byte.hyphen :: Byte.hyphen :: Utf8.encode name]
  | longApart (s : Setting) (value : Bytes) :
      Group [.setting s value] [Byte.hyphen :: Byte.hyphen :: Utf8.encode s.name, value]
  | longEquals (s : Setting) (value : Bytes) :
      Group [.setting s value]
        [Byte.hyphen :: Byte.hyphen :: (Utf8.encode s.name ++ Byte.equals :: value)]

/-- `Interleaved choices paths arguments`: the arguments are groups that make these choices, and
between them, in this order, these paths. -/
inductive Interleaved : List Choice → List Bytes → List Bytes → Prop
  | nil : Interleaved [] [] []
  | group {front choices : List Choice} {words paths arguments : List Bytes}
      (hgroup : Group front words) (rest : Interleaved choices paths arguments) :
      Interleaved (front ++ choices) paths (words ++ arguments)
  | path {choices : List Choice} {path : Bytes} {paths arguments : List Bytes}
      (hne : path ≠ []) (hhyphen : path.head? ≠ some Byte.hyphen)
      (rest : Interleaved choices paths arguments) :
      Interleaved choices (path :: paths) (path :: arguments)

/-! ### The tables of options -/

/-- The letter of a switch, and no other byte, is read as the switch. -/
theorem short?_eq_switch_iff {s : Switch} {letter : Byte} :
    short? letter = some (.switch s) ↔ s.letter? = some (Char.ofUInt8 letter) := by
  rw [short?]
  generalize Char.ofUInt8 letter = c
  constructor
  · intro h
    split at h <;> cases h <;> rfl
  · intro h
    rcases s with _ | _ | _ | (_ | _) | _ <;> cases h <;> rfl

theorem short?_eq_setting_iff {s : Setting} {letter : Byte} :
    short? letter = some (.setting s) ↔ s.letter? = some (Char.ofUInt8 letter) := by
  rw [short?]
  generalize Char.ofUInt8 letter = c
  constructor
  · intro h
    split at h <;> cases h <;> rfl
  · intro h
    cases s <;> cases h <;> rfl

/-- No option has the hyphen as its letter, so that two hyphens never start a bundle. -/
theorem ne_hyphen_of_short? {letter : Byte} {o : Opt} (h : short? letter = some o) :
    letter ≠ Byte.hyphen := by
  rintro rfl
  contradiction

theorem long?_eq_switch_iff {s : Switch} {name : String} :
    long? name = some (.switch s) ↔ s.name? = some name := by
  constructor
  · intro h
    unfold long? at h
    split at h <;> cases h <;> rfl
  · intro h
    rcases s with _ | _ | _ | (_ | _) | _ <;> cases h <;> rfl

theorem long?_eq_setting_iff {s : Setting} {name : String} :
    long? name = some (.setting s) ↔ s.name = name := by
  constructor
  · intro h
    unfold long? at h
    split at h <;> cases h <;> rfl
  · rintro rfl
    cases s <;> rfl

/-- A name is not empty and holds no equals sign, so that it ends where a value is attached. -/
theorem name_of_long? {name : String} {o : Opt} (h : long? name = some o) :
    Utf8.encode name ≠ [] ∧ Byte.equals ∉ Utf8.encode name := by
  unfold long? at h
  split at h <;> cases h <;> exact ⟨by decide, by decide⟩

/-! ### Reading step by step -/

namespace Given

/-- What is given with **more paths**. -/
def addPaths (g : Given) (paths : List Bytes) : Given :=
  { g with paths := g.paths ++ paths.map Path.mk }

@[simp]
theorem addPaths_nil (g : Given) : g.addPaths [] = g := by
  simp [addPaths]

theorem addPaths_addPaths (g : Given) (paths more : List Bytes) :
    (g.addPaths paths).addPaths more = g.addPaths (paths ++ more) := by
  simp [addPaths]

/-- Choices do not look at paths. -/
theorem give_addPaths (g : Given) (c : Choice) (paths : List Bytes) :
    (g.addPaths paths).give c = (g.give c).map fun g => g.addPaths paths := by
  cases c with
  | switch s =>
    simp only [give, flip, addPaths]
    cases s with
    | recursive => cases turnOn .recursive g.recursive <;> rfl
    | unsorted => cases turnOn .unsorted g.unsorted <;> rfl
    | verbose => cases turnOn .verbose g.verbose <;> rfl
    | help long => rfl
    | version => rfl
  | setting s value =>
    simp only [give, set, addPaths]
    cases s with
    | format => cases once .format g.format (readFormat value) <;> rfl
    | output => cases once .output g.output (readPath (.setting .output) value) <;> rfl
    | maxDepth => cases once .maxDepth g.maxDepth (readDepth value) <;> rfl
    | config => cases once .config g.config (readPath (.setting .config) value) <;> rfl

/-- Options are given alike whatever paths have been collected. -/
theorem foldlM_give_addPaths {g g' : Given} {choices : List Choice}
    (h : choices.foldlM give g = .ok g') (paths : List Bytes) :
    choices.foldlM give (g.addPaths paths) = .ok (g'.addPaths paths) := by
  induction choices generalizing g with
  | nil =>
    obtain rfl : g = g' := Except.ok.inj h
    rfl
  | cons c choices ih =>
    rw [List.foldlM_cons, bind_eq_ok_iff] at h ⊢
    obtain ⟨next, hnext, hrest⟩ := h
    exact ⟨next.addPaths paths, by rw [give_addPaths, hnext]; rfl, ih hrest⟩

end Given

namespace State

variable {s : State} {g g' : Given} {value argument : Bytes}

/-- A path adds itself, whether paths are held back already or not. -/
theorem exists_path_eq (hs : s.settle = .ok g) (hne : argument ≠ []) :
    ∃ s', s.path argument = .ok s' ∧ s'.settle = .ok (g.addPaths [argument]) ∧
      s'.onlyPaths = s.onlyPaths := by
  have hread : readPath .path argument = .ok ⟨argument⟩ := if_neg hne
  have hfirst : (∀ paths, s.held ≠ .paths paths) →
      s.path argument = .ok { s with given := g, held := .paths [argument] } := by
    intro hheld
    rw [path]
    split
    · next paths hpaths => exact absurd hpaths (hheld paths)
    · rw [hs]
      rfl
  cases hheld : s.held with
  | paths paths =>
    refine ⟨{ s with held := .paths (paths ++ [argument]) }, by rw [path, hheld], ?_, rfl⟩
    rw [settle, hheld, bind_pure_eq_ok_iff] at hs
    obtain ⟨read, hpaths, rfl⟩ := hs
    simp only [settle, List.mapM_append, hpaths, List.mapM_cons, hread, List.mapM_nil]
    simp [Given.addPaths, bind, Except.bind, pure, Except.pure]
  | nothing | awaits option | value option value =>
    refine ⟨_, hfirst (by simp [hheld]), ?_, rfl⟩
    simp only [settle, List.mapM_cons, hread, List.mapM_nil]
    rfl

/-- What has been read **settles to** `g`, and options may still come. -/
structure SettlesTo (s : State) (g : Given) : Prop where
  settle_eq : s.settle = .ok g
  onlyPaths_eq : s.onlyPaths = false

/-- A switch is flipped once what stands before it has settled. -/
theorem SettlesTo.exists_switch {option : Switch} (h : s.SettlesTo g)
    (hflip : g.flip option = .ok g') : ∃ s', s.switch option = .ok s' ∧ s'.SettlesTo g' := by
  refine ⟨{ s with given := g', held := .nothing }, ?_, rfl, h.onlyPaths_eq⟩
  simp only [State.switch, h.settle_eq, bind, Except.bind, hflip]
  rfl

theorem SettlesTo.exists_attach {option : Setting} (h : s.SettlesTo g)
    (hset : g.set value option = .ok g') :
    ∃ s', s.attach option value = .ok s' ∧ s'.SettlesTo g' := by
  refine ⟨{ s with given := g', held := .nothing }, ?_, rfl, h.onlyPaths_eq⟩
  simp only [attach, h.settle_eq, bind, Except.bind, hset]
  rfl

/-- An argument that starts with no hyphen is a path, unless an option waits for its value. -/
theorem step_of_head?_ne (h : s.onlyPaths = false)
    (hhyphen : argument.head? ≠ some Byte.hyphen) : s.step argument = s.plain argument := by
  rcases argument with _ | ⟨first, _ | ⟨second, rest⟩⟩
  · simp [step, h]
  · simp [step, h]
  · rw [List.head?_cons, ne_eq, Option.some_inj] at hhyphen
    simp [step, h, hhyphen]

/-- An argument that starts with no hyphen is a path where no option waits for it. -/
theorem SettlesTo.exists_step_path (h : s.SettlesTo g) (hne : argument ≠ [])
    (hhyphen : argument.head? ≠ some Byte.hyphen) :
    ∃ s', s.step argument = .ok s' ∧ s'.SettlesTo (g.addPaths [argument]) := by
  have hplain : s.plain argument = s.path argument := by
    rw [plain]
    split
    · next option hheld =>
      have hsettle := h.settle_eq
      rw [settle, hheld] at hsettle
      contradiction
    · rfl
  obtain ⟨s', hpath, hsettle, honly⟩ := exists_path_eq h.settle_eq hne
  refine ⟨s', ?_, hsettle, honly.trans h.onlyPaths_eq⟩
  rw [step_of_head?_ne h.onlyPaths_eq hhyphen, hplain, hpath]

/-- A setting takes the next argument for its value. -/
theorem SettlesTo.exists_await {option : Setting} (h : s.SettlesTo g)
    (hset : g.set value option = .ok g') (hvalue : IsValue value) :
    ∃ awaiting s', s.await option = .ok awaiting ∧ awaiting.step value = .ok s' ∧
      s'.SettlesTo g' := by
  refine ⟨{ s with given := g, held := .awaits option },
    { s with given := g, held := .value option value }, ?_, ?_, hset, h.onlyPaths_eq⟩
  · simp only [await, h.settle_eq, bind, Except.bind]
    rfl
  · exact step_of_head?_ne h.onlyPaths_eq hvalue.head?_ne_hyphen

theorem step_letters {letter : Byte} {letters : Bytes} (h : s.onlyPaths = false)
    (hletter : letter ≠ Byte.hyphen) :
    s.step (Byte.hyphen :: letter :: letters) = s.bundle (letter :: letters) := by
  simp [step, h, hletter]

theorem step_name {name : Bytes} (h : s.onlyPaths = false) (hne : name ≠ []) :
    s.step (Byte.hyphen :: Byte.hyphen :: name) = s.long name := by
  simp [step, h, hne]

/-- Two hyphens alone end the options. -/
theorem step_hyphens (h : s.onlyPaths = false) :
    s.step [Byte.hyphen, Byte.hyphen] = .ok { s with onlyPaths := true } := by
  simp [step, h]

/-- An equals sign in the value of an option does not cut its name. -/
theorem takeWhile_ne_equals {name : Bytes} (hname : Byte.equals ∉ name) (attached : Bytes) :
    (name ++ attached).takeWhile (· != Byte.equals) =
      name ++ attached.takeWhile (· != Byte.equals) := by
  refine List.takeWhile_append_of_pos fun b hb => ?_
  exact bne_iff_ne.mpr fun heq => hname (heq ▸ hb)

/-- A name with nothing attached to it is looked up whole. -/
theorem long_switch {name : String} {option : Switch} (hname : Byte.equals ∉ Utf8.encode name)
    (hlong : long? name = some (.switch option)) :
    s.long (Utf8.encode name) = s.switch option := by
  have htake := takeWhile_ne_equals hname []
  rw [List.takeWhile_nil, List.append_nil] at htake
  simp [long, htake, Utf8.decode?_encode, hlong]

theorem long_setting {name : String} {option : Setting} (hname : Byte.equals ∉ Utf8.encode name)
    (hlong : long? name = some (.setting option)) :
    s.long (Utf8.encode name) = s.await option := by
  have htake := takeWhile_ne_equals hname []
  rw [List.takeWhile_nil, List.append_nil] at htake
  simp [long, htake, Utf8.decode?_encode, hlong]

/-- A value is attached to a setting by the first equals sign. -/
theorem long_equals {name : String} {option : Setting} (hname : Byte.equals ∉ Utf8.encode name)
    (hlong : long? name = some (.setting option)) :
    s.long (Utf8.encode name ++ Byte.equals :: value) = s.attach option value := by
  have htake := takeWhile_ne_equals hname (Byte.equals :: value)
  rw [List.takeWhile_cons_of_neg (by decide), List.append_nil] at htake
  simp [long, htake, Utf8.decode?_encode, hlong]

end State

/-! ### Reading groups -/

section Reading

variable {s : State} {g g' : Given} {choices : List Choice}

open State (SettlesTo)

/-- Letters behind one hyphen are read one by one, up to a setting. -/
theorem Bundle.reads {letters : Bytes} {more : List Bytes}
    (h : Bundle choices letters more) (hs : s.SettlesTo g)
    (hgive : choices.foldlM Given.give g = .ok g') (hvalid : ∀ c ∈ choices, c.IsValid) :
    ∃ middle s', s.bundle letters = .ok middle ∧ more.foldlM State.step middle = .ok s' ∧
      s'.SettlesTo g' := by
  induction h generalizing s g with
  | nil =>
    obtain rfl : g = g' := Except.ok.inj hgive
    exact ⟨s, s, rfl, rfl, hs⟩
  | @switch option letter choices letters more hletter rest ih =>
    rw [List.foldlM_cons, bind_eq_ok_iff] at hgive
    obtain ⟨next, hnext, hgive⟩ := hgive
    rw [List.forall_mem_cons] at hvalid
    obtain ⟨s₁, hswitch, hs₁⟩ := hs.exists_switch hnext
    obtain ⟨middle, s', hbundle, hmore, hs'⟩ := ih hs₁ hgive hvalid.2
    refine ⟨middle, s', ?_, hmore, hs'⟩
    simp only [State.bundle, short?_eq_switch_iff.mpr hletter, hswitch]
    exact hbundle
  | @apart option letter hletter value =>
    simp only [List.foldlM_cons, List.foldlM_nil, bind_pure] at hgive
    obtain ⟨awaiting, s', hawait, hstep, hs'⟩ :=
      hs.exists_await hgive (hvalid _ List.mem_cons_self).1
    refine ⟨awaiting, s', ?_, by rw [List.foldlM_cons, hstep]; rfl, hs'⟩
    simp only [State.bundle, short?_eq_setting_iff.mpr hletter, hawait]
    rfl
  | @attached option letter hletter value =>
    simp only [List.foldlM_cons, List.foldlM_nil, bind_pure] at hgive
    have hvalue := (hvalid _ List.mem_cons_self).1
    obtain ⟨s', hattach, hs'⟩ := hs.exists_attach hgive
    refine ⟨s', s', ?_, rfl, hs'⟩
    simp only [State.bundle, short?_eq_setting_iff.mpr hletter]
    rw [if_neg (by simpa using hvalue.ne_nil), if_neg hvalue.head?_ne_equals, hattach]
  | @equals option letter hletter value =>
    simp only [List.foldlM_cons, List.foldlM_nil, bind_pure] at hgive
    obtain ⟨s', hattach, hs'⟩ := hs.exists_attach hgive
    refine ⟨s', s', ?_, rfl, hs'⟩
    simp only [State.bundle, short?_eq_setting_iff.mpr hletter]
    rw [if_neg (by simp), List.head?_cons, if_pos rfl, List.tail_cons, hattach]

/-- No letter is a hyphen, so letters behind one hyphen are not taken for a name behind two. -/
theorem Bundle.exists_cons {letters : Bytes} {more : List Bytes}
    (h : Bundle choices letters more) (hne : letters ≠ []) :
    ∃ letter rest, letters = letter :: rest ∧ letter ≠ Byte.hyphen := by
  cases h with
  | nil => contradiction
  | switch hletter rest =>
    exact ⟨_, _, rfl, ne_hyphen_of_short? (short?_eq_switch_iff.mpr hletter)⟩
  | apart hletter value | attached hletter value | equals hletter value =>
    exact ⟨_, _, rfl, ne_hyphen_of_short? (short?_eq_setting_iff.mpr hletter)⟩

/-- **A group is read to its choices.** -/
theorem Group.reads {words : List Bytes} (h : Group choices words) (hs : s.SettlesTo g)
    (hgive : choices.foldlM Given.give g = .ok g') (hvalid : ∀ c ∈ choices, c.IsValid) :
    ∃ s', words.foldlM State.step s = .ok s' ∧ s'.SettlesTo g' := by
  cases h with
  | @short choices letters more bundle hne =>
    obtain ⟨letter, rest, rfl, hletter⟩ := bundle.exists_cons hne
    obtain ⟨middle, s', hbundle, hmore, hs'⟩ := bundle.reads hs hgive hvalid
    refine ⟨s', ?_, hs'⟩
    rw [List.foldlM_cons, State.step_letters hs.onlyPaths_eq hletter, hbundle]
    exact hmore
  | @longSwitch option name hname =>
    simp only [List.foldlM_cons, List.foldlM_nil, bind_pure] at hgive
    have hlong := long?_eq_switch_iff.mpr hname
    obtain ⟨hne, hequals⟩ := name_of_long? hlong
    obtain ⟨s', hswitch, hs'⟩ := hs.exists_switch hgive
    refine ⟨s', ?_, hs'⟩
    rw [List.foldlM_cons, State.step_name hs.onlyPaths_eq hne, State.long_switch hequals hlong,
      hswitch]
    rfl
  | longApart option value =>
    simp only [List.foldlM_cons, List.foldlM_nil, bind_pure] at hgive
    have hlong : long? option.name = some (.setting option) := long?_eq_setting_iff.mpr rfl
    obtain ⟨hne, hequals⟩ := name_of_long? hlong
    obtain ⟨awaiting, s', hawait, hstep, hs'⟩ :=
      hs.exists_await hgive (hvalid _ List.mem_cons_self).1
    refine ⟨s', ?_, hs'⟩
    rw [List.foldlM_cons, State.step_name hs.onlyPaths_eq hne, State.long_setting hequals hlong,
      hawait]
    simp only [List.foldlM_cons, List.foldlM_nil, bind_pure]
    exact hstep
  | longEquals option value =>
    simp only [List.foldlM_cons, List.foldlM_nil, bind_pure] at hgive
    have hlong : long? option.name = some (.setting option) := long?_eq_setting_iff.mpr rfl
    obtain ⟨-, hequals⟩ := name_of_long? hlong
    obtain ⟨s', hattach, hs'⟩ := hs.exists_attach hgive
    refine ⟨s', ?_, hs'⟩
    rw [List.foldlM_cons, State.step_name hs.onlyPaths_eq (by simp),
      State.long_equals hequals hlong, hattach]
    rfl

/-- **Groups and paths are read to their choices and their paths**, in whatever order they come. -/
theorem Interleaved.reads {paths arguments : List Bytes} (h : Interleaved choices paths arguments)
    (hs : s.SettlesTo g) (hgive : choices.foldlM Given.give g = .ok g')
    (hvalid : ∀ c ∈ choices, c.IsValid) :
    ∃ s', arguments.foldlM State.step s = .ok s' ∧ s'.SettlesTo (g'.addPaths paths) := by
  induction h generalizing s g g' with
  | nil =>
    obtain rfl : g = g' := Except.ok.inj hgive
    exact ⟨s, rfl, by rwa [Given.addPaths_nil]⟩
  | @group front choices words paths arguments hgroup rest ih =>
    rw [List.foldlM_append, bind_eq_ok_iff] at hgive
    obtain ⟨next, hfront, hgive⟩ := hgive
    rw [List.forall_mem_append] at hvalid
    obtain ⟨s₁, hwords, hs₁⟩ := hgroup.reads hs hfront hvalid.1
    obtain ⟨s', harguments, hs'⟩ := ih hs₁ hgive hvalid.2
    refine ⟨s', ?_, hs'⟩
    rw [List.foldlM_append, hwords]
    exact harguments
  | @path choices path paths arguments hne hhyphen rest ih =>
    obtain ⟨s₁, hstep, hs₁⟩ := hs.exists_step_path hne hhyphen
    -- the choices behind the path are read as if it were not there
    have hgive₁ := Given.foldlM_give_addPaths hgive [path]
    obtain ⟨s', harguments, hs'⟩ := ih hs₁ hgive₁ hvalid
    rw [Given.addPaths_addPaths, List.singleton_append] at hs'
    refine ⟨s', ?_, hs'⟩
    rw [List.foldlM_cons, hstep]
    exact harguments

end Reading

/-! ### The order of a whole command line -/

/-- The **options** that a selection and some paths make in an environment. -/
def Selection.options (sel : Selection) (paths : List Bytes) (environment : Option Bytes) :
    Options :=
  { paths := paths.map Path.mk
    format := sel.format.getD .ctags
    output := sel.output.map fun value => ⟨value.1⟩
    recursive := sel.recursive
    maxDepth := (sel.maxDepth.map Numeral.number).getD 10
    unsorted := sel.unsorted
    config := ((sel.config.map fun value => value.1).or environment).map Path.mk
    verbose := sel.verbose }

section Whole

variable {sel : Selection} {paths arguments : List Bytes} {environment : Option Bytes}

/-- A configuration that is given comes before the environment's. -/
theorem Selection.withEnvironment_addPaths (henvironment : environment ≠ some []) :
    (sel.given.addPaths paths).withEnvironment environment =
      .ok { sel.given.addPaths paths with
        config := ((sel.config.map fun value => value.1).or environment).map Path.mk } := by
  obtain ⟨recursive, unsorted, verbose, format, output, maxDepth, config⟩ := sel
  cases config with
  | some value => rfl
  | none =>
    cases environment with
    | none => rfl
    | some value =>
      have hne : value ≠ [] := fun heq => henvironment (congrArg some heq)
      simp only [Given.withEnvironment, Given.addPaths, Selection.given, Option.map_none,
        readPath, if_neg hne]
      rfl

theorem parse_of_settle {s : State} (hread : arguments.foldlM State.step {} = .ok s)
    (hsettle : s.settle = .ok (sel.given.addPaths paths)) (hpaths : paths ≠ [])
    (henvironment : environment ≠ some []) :
    parse arguments environment = .ok (sel.options paths environment) := by
  have hempty : ¬ (paths.map Path.mk).isEmpty = true := by simpa using hpaths
  simp only [parse, hread, bind, Except.bind, hsettle,
    Selection.withEnvironment_addPaths henvironment]
  exact if_neg hempty

/-- Everything behind `--` is a path. -/
theorem State.exists_foldlM_onlyPaths {s : State} {g : Given} (hs : s.settle = .ok g)
    (honly : s.onlyPaths = true) (hpaths : ∀ path ∈ paths, path ≠ []) :
    ∃ s', paths.foldlM step s = .ok s' ∧ s'.settle = .ok (g.addPaths paths) := by
  induction paths generalizing s g with
  | nil => exact ⟨s, rfl, by rwa [Given.addPaths_nil]⟩
  | cons path paths ih =>
    rw [List.forall_mem_cons] at hpaths
    obtain ⟨s₁, hpath, hs₁, honly₁⟩ := exists_path_eq hs hpaths.1
    obtain ⟨s', hrest, hs'⟩ := ih hs₁ (honly₁.trans honly) hpaths.2
    rw [Given.addPaths_addPaths, List.singleton_append] at hs'
    have hstep : s.step path = s.path path := by simp [step, honly]
    refine ⟨s', ?_, hs'⟩
    rw [List.foldlM_cons, hstep, hpath]
    exact hrest

/-- **The order of arguments does not matter.** A command line that makes the choices of a
selection and names some paths, with groups of options and paths in any order, is read to the
options of the selection and the paths. More paths may stand behind `--`, whatever they start with;
all of them may, and then the arguments before it are options only. -/
theorem parse_interleaved (sel : Selection) {choices : List Choice}
    (hperm : choices.Perm sel.choices)
    (harguments : Interleaved choices paths arguments) (henvironment : environment ≠ some []) :
    (paths ≠ [] → parse arguments environment = .ok (sel.options paths environment)) ∧
      ∀ more : List Bytes, (∀ path ∈ more, path ≠ []) → paths ++ more ≠ [] →
        parse (arguments ++ [Byte.hyphen, Byte.hyphen] :: more) environment =
          .ok (sel.options (paths ++ more) environment) := by
  have hvalid : ∀ c ∈ choices, c.IsValid := fun c hc =>
    sel.isValid_of_mem_choices (hperm.mem_iff.mp hc)
  have hstart : State.SettlesTo {} {} := ⟨rfl, rfl⟩
  obtain ⟨s, hread, hs⟩ := harguments.reads hstart (sel.foldlM_give hperm) hvalid
  refine ⟨fun hpaths => parse_of_settle hread hs.settle_eq hpaths henvironment, ?_⟩
  intro more hmore hpaths
  -- what is held back when `--` comes stays held, and settles with the first path behind it
  obtain ⟨s', hrest, hs'⟩ :=
    State.exists_foldlM_onlyPaths (s := { s with onlyPaths := true }) hs.settle_eq rfl hmore
  rw [Given.addPaths_addPaths] at hs'
  refine parse_of_settle ?_ hs' hpaths henvironment
  rw [List.foldlM_append, bind_eq_ok_iff]
  refine ⟨s, hread, ?_⟩
  rw [List.foldlM_cons, State.step_hyphens hs.onlyPaths_eq]
  exact hrest

/-- Paths before, between and behind options, one of them not text; a bundle with a value that is
not text either and holds an equals sign; a number with a plus sign and leading zeros; the
configuration of the environment; and behind `--` a path that starts with a hyphen. -/
theorem parse_interleaved_crowded :
    let arguments : List Bytes :=
      [Bytes.ofAscii "a.sh", Bytes.ofAscii "-vRoo=" ++ [0xFF], Bytes.ofAscii "--max-depth=+007",
        0xFE :: Bytes.ofAscii "lib", Bytes.ofAscii "-f", Bytes.ofAscii "json"]
    let environment : Bytes := Bytes.ofAscii "c.toml"
    let options : Options :=
      { paths := [⟨Bytes.ofAscii "a.sh"⟩, ⟨0xFE :: Bytes.ofAscii "lib"⟩], format := .json,
        output := some ⟨Bytes.ofAscii "o=" ++ [0xFF]⟩, recursive := true, maxDepth := 7,
        config := some ⟨environment⟩, verbose := true }
    parse arguments (some environment) = .ok options ∧
      parse (arguments ++ [Bytes.ofAscii "--", Bytes.ofAscii "-R"]) (some environment) =
        .ok { options with paths := options.paths ++ [⟨Bytes.ofAscii "-R"⟩] } := by
  intro arguments environment options
  let sel : Selection :=
    { recursive := true, verbose := true, format := some .json,
      output := some ⟨Bytes.ofAscii "o=" ++ [0xFF], by decide⟩,
      maxDepth := some ⟨"+007", 7, ['0', '0', '7'], .inr (by decide), by decide,
        List.all_eq_true.mp rfl, by decide⟩ }
  have hbundle : Bundle
      [.switch .verbose, .switch .recursive, .setting .output (Bytes.ofAscii "o=" ++ [0xFF])]
      (Bytes.ofAscii "vRoo=" ++ [0xFF]) [] :=
    .switch (by decide) (.switch (by decide) (.attached (by decide) _))
  have hformat : Bundle [.setting .format (Bytes.ofAscii "json")] (Bytes.ofAscii "f")
      [Bytes.ofAscii "json"] := .apart (by decide) _
  have hline : Interleaved
      [.switch .verbose, .switch .recursive, .setting .output (Bytes.ofAscii "o=" ++ [0xFF]),
        .setting .maxDepth (Bytes.ofAscii "+007"), .setting .format (Bytes.ofAscii "json")]
      [Bytes.ofAscii "a.sh", 0xFE :: Bytes.ofAscii "lib"] arguments :=
    .path (by decide) (by decide) (.group (.short hbundle (by decide))
      (.group (.longEquals .maxDepth (Bytes.ofAscii "+007")) (.path (by decide) (by decide)
        (.group (.short hformat (by decide)) .nil))))
  have hperm : List.Perm
      [.switch .verbose, .switch .recursive, .setting .output (Bytes.ofAscii "o=" ++ [0xFF]),
        .setting .maxDepth (Bytes.ofAscii "+007"), .setting .format (Bytes.ofAscii "json")]
      sel.choices := by
    decide
  have henvironment : some environment ≠ some [] := by decide
  obtain ⟨hfirst, hsecond⟩ := parse_interleaved sel hperm hline henvironment
  exact ⟨hfirst (by decide), hsecond [Bytes.ofAscii "-R"] (by decide) (by decide)⟩

end Whole

end ScriptTags.CommandLine
