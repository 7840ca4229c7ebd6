import Ravel.CommandLine.Start
import Ravel.Proofs.Changes

/-!
# The layers of the settings

A program starts with settings from four layers: the options, the environment, a profile and the
defaults. Each setting has the value of the highest layer that gives one, but to give one is not the
same in every layer. An option gives whatever stands after it, also an empty prompt, or a limit that
is not positive and stands for the default. A variable and a profile give the texts that are not
empty and the limits that are positive. The debug flags of all layers are turned on; unknown names
of flags in the options are refused and those in the environment are passed over
(`Options.settings_layered`).

All this holds for any decoders of profiles and for any library that reads the variables as it is
documented to (`Variables.Documented`). The variables then act on the settings as a profile does
that has their values (`Settings.applyVariables_eq_apply`), so what a layer does to each setting is
said once (`Settings.apply_eq`).
-/

namespace Ravel

private theorem DebugFlag.ofName?_eq_none_iff {name : Text} :
    ofName? name = none ↔ ∀ f : DebugFlag, f.name ≠ name := by
  rw [Option.eq_none_iff_forall_ne_some]
  apply forall_congr'
  intro f
  rw [Ne, ofName?_eq_some_iff, eq_comm]

namespace Settings

variable (s : Settings)

/-! ### What a layer does -/

private theorem turnOn_cons (name : Text) (names : List Text) :
    s.turnOn (name :: names) = ((s.setNamedFlag? name true).getD s).turnOn names := by
  unfold turnOn setNamedFlag?
  cases hname : DebugFlag.ofName? name <;> simp [hname]

/-- Names turn on the flags that have them and do nothing else. -/
private theorem turnOn_eq (names : List Text) :
    s.turnOn names = { s with debug := fun f ↦ s.debug f || decide (f.name ∈ names) } := by
  induction names generalizing s with
  | nil => simp [turnOn]
  | cons name names ih =>
    rw [turnOn_cons, ih, setNamedFlag?]
    cases hname : DebugFlag.ofName? name with
    | none =>
      have hne := DebugFlag.ofName?_eq_none_iff.1 hname
      simp [hne]
    | some g =>
      have hname_iff (f : DebugFlag) : f.name = name ↔ f = g := by
        rw [eq_comm, ← DebugFlag.ofName?_eq_some_iff, hname, Option.some_inj, eq_comm]
      simp only [Option.map_some, Option.getD_some, setFlag, List.mem_cons, hname_iff]
      congr 1
      funext f
      by_cases hf : f = g <;> simp [hf]

private theorem withPrompt_eq (t : Text) :
    s.withPrompt t = { s with prompt := if t = [] then s.prompt else t } := by
  cases t <;> rfl

private theorem withHistory_eq (t : Text) :
    s.withHistory t = { s with history := if t = [] then s.history else t } := by
  cases t <;> rfl

private theorem withDepth_eq (n : Int64) :
    s.withDepth n = { s with depthLimit := if 0 < n then n else s.depthLimit } := by
  by_cases h : 0 < n <;> simp [withDepth, h]

private theorem withElements_eq (n : Int64) :
    s.withElements n = { s with elementLimit := if 0 < n then n else s.elementLimit } := by
  by_cases h : 0 < n <;> simp [withElements, h]

/-- A profile replaces the texts for which it has one that is not empty and the limits for which it
has a positive one, and turns on the flags that it names. -/
theorem apply_eq (p : Profile) :
    s.apply p =
      { prompt := if p.prompt = [] then s.prompt else p.prompt
        history := if p.history = [] then s.history else p.history
        depthLimit := if 0 < p.maxDepth then p.maxDepth else s.depthLimit
        elementLimit := if 0 < p.maxElements then p.maxElements else s.elementLimit
        debug := fun f ↦ s.debug f || decide (f.name ∈ p.debug) } := by
  rw [apply, turnOn_eq, withElements_eq, withDepth_eq, withHistory_eq, withPrompt_eq]

/-! ### Values that a layer may give -/

private theorem getD_filter_text (t : Option Text) (u : Text) :
    (t.filter (· ≠ [])).getD u = if t.getD [] = [] then u else t.getD [] := by
  cases t with
  | none => rfl
  | some t => by_cases h : t = [] <;> simp [Option.filter_some, h]

private theorem getD_filter_limit (n : Option Int64) (m : Int64) :
    (n.filter (0 < ·)).getD m = if 0 < n.getD 0 then n.getD 0 else m := by
  cases n with
  | none => rfl
  | some n => by_cases h : 0 < n <;> simp [Option.filter_some, h]

/-- The limit in force where one is set: one that is not positive stands for the default. -/
def limitOr (default n : Int64) : Int64 := if 0 < n then n else default

private theorem maxDepth_eq : s.maxDepth = limitOr defaultDepth s.depthLimit := by
  simp only [maxDepth, limitOr, ← Int64.not_lt, ite_not]

private theorem maxElements_eq : s.maxElements = limitOr defaultElements s.elementLimit := by
  simp only [maxElements, limitOr, ← Int64.not_lt, ite_not]

private theorem limitOr_getD (default n : Int64) (given : Option Int64) :
    limitOr default (given.getD n) = (given.map (limitOr default)).getD (limitOr default n) := by
  cases given <;> rfl

private theorem map_limitOr_filter (default : Int64) (given : Option Int64) :
    (given.filter (0 < ·)).map (limitOr default) = given.filter (0 < ·) := by
  cases given with
  | none => rfl
  | some m => by_cases h : 0 < m <;> simp [Option.filter_some, h, limitOr]

private theorem limitOr_layers (default : Int64) (option environment profile : Option Int64) :
    limitOr default
        (option.getD ((environment.filter (0 < ·)).getD ((profile.filter (0 < ·)).getD 0))) =
      (option.map (limitOr default) <|> environment.filter (0 < ·) <|>
        profile.filter (0 < ·)).getD default := by
  simp only [Option.orElse_eq_orElse, Option.orElse_eq_or, Option.getD_or, limitOr_getD,
    map_limitOr_filter]
  rfl

end Settings

/-! ### The environment -/

namespace Environment

variable (env : Environment) (name : String)

/-- The text that a variable gives: its value, unless that is empty. -/
def text? : Option Text := (env.get? name).filter (· ≠ [])

/-- The limit that a variable gives: the integer that it holds, if that is positive. -/
def limit? : Option Int64 := (env.integer? name).filter (0 < ·)

private theorem getD_text? (t : Text) :
    (env.text? name).getD t = if env.value name = [] then t else env.value name :=
  Settings.getD_filter_text _ t

private theorem getD_limit? (n : Int64) :
    (env.limit? name).getD n =
      if 0 < (env.integer? name).getD 0 then (env.integer? name).getD 0 else n :=
  Settings.getD_filter_limit _ n

private theorem value_ne_nil_iff : env.value name ≠ [] ↔ ∃ t, env.get? name = some t ∧ t ≠ [] := by
  unfold value
  cases env.get? name <;> simp

/-- The program reads the variables of an environment as the library documents it. -/
theorem documented_reading : env.reading.Documented env where
  has_iff name := by
    rw [← value_ne_nil_iff]
    simp [reading]
  str_eq name := rfl
  int_eq name default := rfl

/-- The variables as a profile. -/
def profile : Profile where
  prompt := env.value "JOT_PROMPT"
  history := env.value "JOT_HISTORY"
  maxDepth := (env.integer? "JOT_MAXDEPTH").getD 0
  maxElements := (env.integer? "JOT_MAXELEMENTS").getD 0
  debug := (env.value "JOT_DEBUG").names

end Environment

/-! ### Each layer in terms of what it gives -/

namespace Settings

variable (s : Settings) {v : Variables} {env : Environment}

private theorem initial_eq (env : Environment) :
    initial env =
      { prompt := Text.ofString "   "
        history := (env.home?.map (Path.join · (Text.ofString ".jot_history"))).getD [] } := by
  unfold initial
  cases env.home? <;> rfl

private theorem elim_apply_eq (p : Option Profile) :
    p.elim s s.apply =
      { prompt := ((p.map Profile.prompt).filter (· ≠ [])).getD s.prompt
        history := ((p.map Profile.history).filter (· ≠ [])).getD s.history
        depthLimit := ((p.map Profile.maxDepth).filter (0 < ·)).getD s.depthLimit
        elementLimit := ((p.map Profile.maxElements).filter (0 < ·)).getD s.elementLimit
        debug := fun f ↦ s.debug f || decide (f.name ∈ p.elim [] Profile.debug) } := by
  cases p with
  | none => simp
  | some p =>
    simp only [Option.elim_some, Option.map_some, apply_eq, getD_filter_text, getD_filter_limit,
      Option.getD_some]
    rfl

/-- Variables act as a profile that has their values. -/
theorem applyVariables_eq_apply (hv : v.Documented env) :
    s.applyVariables v = s.apply env.profile := by
  have hhas (name : String) : v.has name = true ↔ env.value name ≠ [] := by
    rw [hv.has_iff, env.value_ne_nil_iff]
  simp only [applyVariables, hhas, hv.str_eq, hv.int_eq, apply, withPrompt_eq, withHistory_eq,
    Environment.profile]
  by_cases hp : env.value "JOT_PROMPT" = [] <;> by_cases hh : env.value "JOT_HISTORY" = [] <;>
    simp only [hp, hh, ne_eq, not_true_eq_false, not_false_eq_true, if_true, if_false]

private theorem applyVariables_eq (hv : v.Documented env) :
    s.applyVariables v =
      { prompt := (env.text? "JOT_PROMPT").getD s.prompt
        history := (env.text? "JOT_HISTORY").getD s.history
        depthLimit := (env.limit? "JOT_MAXDEPTH").getD s.depthLimit
        elementLimit := (env.limit? "JOT_MAXELEMENTS").getD s.elementLimit
        debug := fun f ↦ s.debug f || decide (f.name ∈ (env.value "JOT_DEBUG").names) } := by
  simp only [s.applyVariables_eq_apply hv, apply_eq, Environment.getD_text?,
    Environment.getD_limit?]
  rfl

end Settings

namespace Options

variable (o : Options) (d : Profile.Decoders) (files : Reader) (env : Environment)
  (p : Option Profile)

private theorem override_eq (s : Settings) :
    o.override s =
      { prompt := o.prompt.getD s.prompt
        history := s.history
        depthLimit := o.maxDepth.getD s.depthLimit
        elementLimit := o.maxElements.getD s.elementLimit
        debug := fun f ↦ s.debug f || decide (f.name ∈ o.debugNames) } := by
  rw [override, Settings.turnOn_eq]

/-! ### All layers -/

/-- The profile that is loaded, if there is one to load. -/
def loaded : Except Profile.LoadError (Option Profile) :=
  match o.profile? files env with
  | none => .ok none
  | some path => (d.load files path).map some

/-- Each setting has the value of the highest layer that gives one, and a flag is on if some layer
names it. -/
structure Layered (s : Settings) : Prop where
  prompt : s.prompt =
    (o.prompt <|> env.text? "JOT_PROMPT" <|> (p.map Profile.prompt).filter (· ≠ [])).getD
      (Text.ofString "   ")
  history : s.history =
    (env.text? "JOT_HISTORY" <|> (p.map Profile.history).filter (· ≠ [])).getD
      ((env.home?.map (Path.join · (Text.ofString ".jot_history"))).getD [])
  maxDepth : s.maxDepth =
    (o.maxDepth.map (Settings.limitOr Settings.defaultDepth) <|> env.limit? "JOT_MAXDEPTH" <|>
      (p.map Profile.maxDepth).filter (0 < ·)).getD Settings.defaultDepth
  maxElements : s.maxElements =
    (o.maxElements.map (Settings.limitOr Settings.defaultElements) <|>
      env.limit? "JOT_MAXELEMENTS" <|>
      (p.map Profile.maxElements).filter (0 < ·)).getD Settings.defaultElements
  debug (f : DebugFlag) : s.debug f = true ↔
    (∃ q ∈ p, f.name ∈ q.debug) ∨ f.name ∈ (env.value "JOT_DEBUG").names ∨ f.name ∈ o.debugNames

/-- The settings that the layers make up. -/
def composed : Settings :=
  o.override ((p.elim (Settings.initial env) (Settings.initial env).apply).apply env.profile)

variable {o d files env p} {v : Variables}

private theorem composed_eq :
    o.composed env p =
      { prompt := o.prompt.getD ((env.text? "JOT_PROMPT").getD
          (((p.map Profile.prompt).filter (· ≠ [])).getD (Text.ofString "   ")))
        history := (env.text? "JOT_HISTORY").getD (((p.map Profile.history).filter (· ≠ [])).getD
          ((env.home?.map (Path.join · (Text.ofString ".jot_history"))).getD []))
        depthLimit := o.maxDepth.getD ((env.limit? "JOT_MAXDEPTH").getD
          (((p.map Profile.maxDepth).filter (0 < ·)).getD 0))
        elementLimit := o.maxElements.getD ((env.limit? "JOT_MAXELEMENTS").getD
          (((p.map Profile.maxElements).filter (0 < ·)).getD 0))
        debug := fun f ↦ decide (f.name ∈ p.elim [] Profile.debug) ||
          decide (f.name ∈ (env.value "JOT_DEBUG").names) || decide (f.name ∈ o.debugNames) } := by
  simp only [composed, ← Settings.applyVariables_eq_apply _ env.documented_reading, override_eq,
    Settings.applyVariables_eq _ env.documented_reading, Settings.elim_apply_eq,
    Settings.initial_eq, Bool.false_or]

private theorem layered_composed : o.Layered env p (o.composed env p) where
  prompt := by
    simp only [composed_eq, Option.orElse_eq_orElse, Option.orElse_eq_or, Option.getD_or]
  history := by
    simp only [composed_eq, Option.orElse_eq_orElse, Option.orElse_eq_or, Option.getD_or]
  maxDepth := by
    rw [Settings.maxDepth_eq, composed_eq]
    apply Settings.limitOr_layers
  maxElements := by
    rw [Settings.maxElements_eq, composed_eq]
    apply Settings.limitOr_layers
  debug f := by
    simp only [composed_eq, Bool.or_eq_true, decide_eq_true_eq, or_assoc]
    cases p <;> simp

private theorem apply_eq_ok_iff {s s' : Settings} :
    o.apply s = .ok s' ↔
      (∀ name ∈ o.debugNames, ∃ f : DebugFlag, f.name = name) ∧ o.override s = s' := by
  have hknown : Profile.unknownFlag? o.debugNames.reverse = none ↔
      ∀ name ∈ o.debugNames, ∃ f : DebugFlag, f.name = name := by
    simp [Profile.unknownFlag?, DebugFlag.ofName?_eq_none_iff]
  unfold apply
  rw [← hknown]
  cases Profile.unknownFlag? o.debugNames.reverse <;> simp

private theorem settings_eq_ok_iff (hv : v.Documented env) {s : Settings} :
    o.settings d files v env = .ok s ↔
      (∃ p, o.loaded d files env = .ok p ∧ o.composed env p = s) ∧
        ∀ name ∈ o.debugNames, ∃ f : DebugFlag, f.name = name := by
  unfold settings loaded applyProfile
  cases o.profile? files env with
  | none =>
    simp [bind, Except.bind, Settings.applyVariables_eq_apply _ hv, apply_eq_ok_iff, composed,
      and_comm]
  | some path =>
    cases hload : d.load files path with
    | error e => simp [hload, bind, Except.bind, Except.map]
    | ok p =>
      simp [hload, bind, Except.bind, Except.map, Settings.applyVariables_eq_apply _ hv,
        apply_eq_ok_iff, composed, and_comm]

private theorem exists_settings_eq_error_iff (hv : v.Documented env) :
    (∃ e, o.settings d files v env = .error e) ↔
      (∃ e, o.loaded d files env = .error e) ∨
        ∃ name ∈ o.debugNames, ∀ f : DebugFlag, f.name ≠ name := by
  have hfails {ε α : Type} (x : Except ε α) : (∃ e, x = .error e) ↔ ¬∃ a, x = .ok a := by
    cases x <;> simp
  have hunknown : (∃ name ∈ o.debugNames, ∀ f : DebugFlag, f.name ≠ name) ↔
      ¬∀ name ∈ o.debugNames, ∃ f : DebugFlag, f.name = name := by
    simp
  rw [hfails, hfails, hunknown, ← not_and_or]
  apply not_congr
  simp only [settings_eq_ok_iff hv, exists_and_right]
  apply and_congr_left'
  rw [exists_comm]
  simp

/-- The names in the variable of debug flags count only as far as they are names of flags. -/
private theorem settings_eq_of_same_flags {v' : Variables} {env' : Environment}
    (hv : v.Documented env) (hv' : v'.Documented env')
    (hlookup : ∀ name ≠ Text.ofString "JOT_DEBUG", env'.lookup name = env.lookup name)
    (hdebug : ∀ f : DebugFlag, f.name ∈ (env'.value "JOT_DEBUG").names ↔
      f.name ∈ (env.value "JOT_DEBUG").names) :
    o.settings d files v' env' = o.settings d files v env := by
  have hget (name : String) (h : Text.ofString name ≠ Text.ofString "JOT_DEBUG") :
      env'.get? name = env.get? name := hlookup _ h
  have hprompt := hget "JOT_PROMPT" (by decide)
  have hhistory := hget "JOT_HISTORY" (by decide)
  have hdepth := hget "JOT_MAXDEPTH" (by decide)
  have helements := hget "JOT_MAXELEMENTS" (by decide)
  have happly (s : Settings) : s.applyVariables v' = s.applyVariables v := by
    simp only [Settings.applyVariables_eq _ hv, Settings.applyVariables_eq _ hv',
      Environment.text?, Environment.limit?, Environment.integer?, hprompt, hhistory, hdepth,
      helements, hdebug]
  -- the defaults and the choice of the profile look at the home directory only
  have hhome : env'.home? = env.home? := by
    rw [Environment.home?, Environment.home?, Environment.value, Environment.value,
      hget "HOME" (by decide)]
  simp only [settings, applyProfile, profile?, profiles, Settings.initial, hhome, happly]

/-- Each setting has the value of the highest layer that gives one, whatever decodes the profile,
and only a profile that fails to load or an unknown flag among the options is an error. -/
theorem settings_layered (o : Options) (d : Profile.Decoders) (files : Reader) {v : Variables}
    {env : Environment} (hv : v.Documented env) :
    ((∃ e, o.settings d files v env = .error e) ↔
      (∃ e, o.loaded d files env = .error e) ∨
        ∃ name ∈ o.debugNames, ∀ f : DebugFlag, f.name ≠ name) ∧
    (∀ s, o.settings d files v env = .ok s →
      ∃ p, o.loaded d files env = .ok p ∧ o.Layered env p s) ∧
    ∀ (v' : Variables) (env' : Environment), v'.Documented env' →
      (∀ name ≠ Text.ofString "JOT_DEBUG", env'.lookup name = env.lookup name) →
      (∀ f : DebugFlag, f.name ∈ (env'.value "JOT_DEBUG").names ↔
        f.name ∈ (env.value "JOT_DEBUG").names) →
      o.settings d files v' env' = o.settings d files v env := by
  refine ⟨exists_settings_eq_error_iff hv, ?_, fun v' env' ↦ settings_eq_of_same_flags hv⟩
  intro s hs
  obtain ⟨⟨p, hp, rfl⟩, -⟩ := (settings_eq_ok_iff hv).1 hs
  exact ⟨p, hp, layered_composed⟩

/-- A prompt from the profile, a depth from the environment and a number of elements that the
options set back to the default; one of the two names of flags is unknown. -/
theorem settings_layered_limits :
    let files : Reader :=
      ⟨fun _ ↦ .ok (), fun _ ↦
        .ok (Text.ofString "prompt = \"> \"\nmaxdepth = 40\nmaxelements = 7\n")⟩
    let env (names : String) : Environment :=
      [(Text.ofString "JOT_MAXDEPTH", Text.ofString "50"),
        (Text.ofString "JOT_DEBUG", Text.ofString names)]
    let o : Options := { maxElements := some (-1) }
    ∃ s : Settings,
      o.settings .standard files (env "cpu,none").reading (env "cpu,none") = .ok s ∧
        o.settings .standard files (env "cpu").reading (env "cpu") = .ok s ∧
        s.prompt = Text.ofString "> " ∧ s.history = [] ∧ s.maxDepth = 50 ∧
        s.maxElements = Settings.defaultElements ∧ ∀ f, s.debug f = true ↔ f = .cpu := by
  intro files env o
  have hv := (env "cpu,none").documented_reading
  have hloaded : o.loaded .standard files (env "cpu,none") =
      .ok (some { prompt := Text.ofString "> ", maxDepth := 40, maxElements := 7 }) := by
    decide +kernel
  obtain ⟨s, hs⟩ : ∃ s, o.settings .standard files (env "cpu,none").reading (env "cpu,none") =
      .ok s := ⟨_, (settings_eq_ok_iff hv).2 ⟨⟨_, hloaded, rfl⟩, nofun⟩⟩
  obtain ⟨-, hlayers, hflags⟩ := settings_layered o .standard files hv
  obtain ⟨p, hp, hl⟩ := hlayers s hs
  obtain rfl := Except.ok.inj (hloaded.symm.trans hp)
  refine ⟨s, hs, ?_, hl.prompt.trans (by decide), hl.history.trans (by decide),
    hl.maxDepth.trans (by decide), hl.maxElements.trans (by decide), ?_⟩
  · rw [← hs]
    apply hflags _ _ (env "cpu").documented_reading
    · intro name hname
      simp only [env, List.lookup_cons, beq_false_of_ne hname]
    · intro f
      cases f <;> decide +kernel
  · intro f
    rw [hl.debug]
    cases f <;> decide +kernel

/-- A variable that is there but empty gives nothing: the prompt is the default and not empty. -/
theorem settings_empty_prompt :
    let env : Environment := [(Text.ofString "JOT_PROMPT", [])]
    env.get? "JOT_PROMPT" = some [] ∧ env.reading.Documented env ∧
      ∃ s, ({} : Options).settings .standard ⟨fun _ ↦ .error .missing, fun _ ↦ .error .missing⟩
          env.reading env = .ok s ∧
        s.prompt = Text.ofString "   " ∧ s.prompt ≠ [] :=
  ⟨by decide, Environment.documented_reading _, _, rfl, by decide, by decide⟩

end Options

end Ravel
