import Mathlib.Data.List.TakeWhile
import Ravel.Proofs.Literal
import Ravel.Session.Basic

/-!
# What changes the settings

A session changes its settings by five forms of lines: the commands `)maxdepth` and `)maxelements`
with a positive integer, `)prompt` with a quoted text, and `)debug` with the name of a flag, alone
or with 0 or 1 (`Text.Sets`). Each of them changes the one setting that it names, and no other line
changes any, whether it succeeds or fails. So the settings after a session hang on its lines of
these forms only (`Settings.session_eq_accepted`).
-/

namespace Ravel

namespace Text

/-! ### The first word of a text -/

/-- Members at the start of a row that do not satisfy a condition stay if the end is dropped. -/
private theorem isPrefix_dropWhileEnd {α : Type} {p : α → Bool} {q s : List α} (h : q <+: s)
    (hq : ∀ x ∈ q, p x = false) : q <+: dropWhileEnd p s := by
  obtain ⟨t, rfl⟩ := h
  have hkept : q.reverse.dropWhile p = q.reverse := by
    rw [List.dropWhile_eq_self_iff]
    intro hlen
    simpa using hq _ (List.mem_reverse.mp (List.getElem_mem hlen))
  unfold dropWhileEnd
  rw [List.reverse_append, List.dropWhile_append]
  split
  · exact ⟨[], by rw [hkept, List.reverse_reverse, List.append_nil]⟩
  · rw [List.reverse_append, List.reverse_reverse]
    exact List.prefix_append _ _

/-- What splitting puts first is what the row starts with. -/
theorem head?_splitOnP {α : Type} (p : α → Bool) (s : List α) :
    (s.splitOnP p).head? = some (s.takeWhile (!p ·)) := by
  induction s with
  | nil => rfl
  | cons x s ih =>
    obtain ⟨first, others, hsplit⟩ := List.exists_cons_of_ne_nil (List.splitOnP_ne_nil p s)
    rw [List.splitOnP_cons_eq_if_modifyHead, List.takeWhile_cons]
    rw [hsplit, List.head?_cons, Option.some_inj] at ih
    cases h : p x <;> simp [hsplit, ih]

/-- The first piece that is not empty starts where the row is not split any more. -/
private theorem isPrefix_dropWhile_of_splitOnP {α : Type} {p : α → Bool} {s group : List α}
    {groups : List (List α)} (h : (s.splitOnP p).filter (!·.isEmpty) = group :: groups) :
    group <+: s.dropWhile p := by
  induction s with
  | nil => simp at h
  | cons x s ih =>
    rw [List.splitOnP_cons_eq_if_modifyHead] at h
    rw [List.dropWhile_cons]
    cases hx : p x with
    | true =>
      rw [if_pos rfl]
      exact ih (by simpa [hx] using h)
    | false =>
      obtain ⟨first, others, hsplit⟩ := List.exists_cons_of_ne_nil (List.splitOnP_ne_nil p s)
      have hfirst : first = s.takeWhile (!p ·) := by
        simpa [hsplit] using head?_splitOnP p s
      have hgroup : group = x :: first := by
        simp only [hx, Bool.false_eq_true, if_false, hsplit, List.modifyHead_cons] at h
        simpa using (List.cons_eq_cons.mp h).1.symm
      rw [if_neg Bool.false_ne_true, hgroup, hfirst]
      exact List.cons_prefix_cons.mpr ⟨rfl, List.takeWhile_prefix _⟩

/-- The first word of a text starts the text that is left by trimming. -/
private theorem isPrefix_trim_of_words {s word : Text} {words : List Text}
    (h : s.words = word :: words) :
    word <+: s.trim := by
  obtain ⟨group, groups, hgroup, rfl, -⟩ := List.map_eq_cons_iff.mp h
  have hmem : group ∈ s.glyphs.splitOnP Glyph.isSpace := by
    have hfilter : group ∈ (s.glyphs.splitOnP Glyph.isSpace).filter (!·.isEmpty) :=
      hgroup ▸ List.mem_cons_self
    exact (List.mem_filter.mp hfilter).1
  obtain ⟨t, ht⟩ := isPrefix_dropWhileEnd (isPrefix_dropWhile_of_splitOnP hgroup)
    fun x hx ↦ (Token.mem_of_mem_splitOnP hmem hx).2
  exact ⟨ofGlyphs t, by rw [trim, ← ht, ofGlyphs, ofGlyphs, ofGlyphs, List.flatMap_append]⟩

/-! ### The lines that set something -/

/-- The lines that set something, each with what it does to the settings. -/
inductive Sets (line : Text) : (Settings → Settings) → Prop where
  /-- `)maxdepth n` -/
  | depth {command value : Text} {n : Int64} (hline : line.trim = 41 :: command)
      (hwords : command.words = [ofString "maxdepth", value])
      (hvalue : readInt64? value = some n) (hpos : 0 < n) :
      Sets line fun s ↦ { s with depthLimit := n }
  /-- `)maxelements n` -/
  | elements {command value : Text} {n : Int64} (hline : line.trim = 41 :: command)
      (hwords : command.words = [ofString "maxelements", value])
      (hvalue : readInt64? value = some n) (hpos : 0 < n) :
      Sets line fun s ↦ { s with elementLimit := n }
  /-- `)prompt "text"` -/
  | prompt {command arg rest text : Text} {args : List Text}
      (hline : line.trim = 41 :: command)
      (hwords : command.words = ofString "prompt" :: arg :: args)
      (hrest : command.trim = ofString "prompt" ++ rest)
      (hquoted : unquote? rest.trim = some text) :
      Sets line fun s ↦ { s with prompt := text }
  /-- `)debug name` -/
  | toggle {command : Text} {flag : DebugFlag} (hline : line.trim = 41 :: command)
      (hwords : command.words = [ofString "debug", flag.name]) :
      Sets line fun s ↦ { s with debug := fun f ↦ if f = flag then !s.debug flag else s.debug f }
  /-- `)debug name 0` and `)debug name 1` -/
  | switch {command value : Text} {flag : DebugFlag} {on : Bool}
      (hline : line.trim = 41 :: command)
      (hwords : command.words = [ofString "debug", flag.name, value])
      (hvalue : readInt64? value = some (if on then 1 else 0)) :
      Sets line fun s ↦ { s with debug := fun f ↦ if f = flag then on else s.debug f }

/-- A line that sets something. -/
def IsSetting (line : Text) : Prop := ∃ update, line.Sets update

/-- A line that is not meant to set anything: no command with a parenthesis, a command of one word,
such as a question for a setting, or one of the commands that never set anything. -/
def IsIdle (line : Text) : Prop :=
  line.trim.head? ≠ some 41 ∨ ∃ command : Text, line.trim = 41 :: command ∧
    (command.words.length ≤ 1 ∨
      ∃ name ∈ ["help", "demo", "quit"], command.words.head? = some (ofString name))

/-- A line that sets something has a name and an argument. -/
private theorem Sets.exists_words {line : Text} {update : Settings → Settings}
    (h : line.Sets update) :
    ∃ (command arg : Text) (args : List Text),
      ∃ name ∈ ["maxdepth", "maxelements", "prompt", "debug"],
        line.trim = 41 :: command ∧ command.words = ofString name :: arg :: args := by
  cases h with
  | depth hline hwords => exact ⟨_, _, _, "maxdepth", by simp, hline, hwords⟩
  | elements hline hwords => exact ⟨_, _, _, "maxelements", by simp, hline, hwords⟩
  | prompt hline hwords => exact ⟨_, _, _, "prompt", by simp, hline, hwords⟩
  | toggle hline hwords => exact ⟨_, _, _, "debug", by simp, hline, hwords⟩
  | switch hline hwords => exact ⟨_, _, _, "debug", by simp, hline, hwords⟩

private theorem IsIdle.not_isSetting {line : Text} (h : line.IsIdle) : ¬ line.IsSetting := by
  rintro ⟨update, hset⟩
  obtain ⟨command, arg, args, name, hname, hline, hwords⟩ := hset.exists_words
  rcases h with hparen | ⟨command', hline', hidle⟩
  · exact hparen (by rw [hline, List.head?_cons])
  obtain rfl : command' = command := (List.cons_eq_cons.mp (hline'.symm.trans hline)).2
  rcases hidle with hone | ⟨name', hname', hhead⟩
  · simp [hwords] at hone
  · have hapart : ∀ a ∈ ["maxdepth", "maxelements", "prompt", "debug"],
        ∀ b ∈ ["help", "demo", "quit"], ofString a ≠ ofString b := by decide +kernel
    rw [hwords, List.head?_cons] at hhead
    exact hapart name hname name' hname' (Option.some.inj hhead)

end Text

/-- A flag is found under its own name only. -/
theorem DebugFlag.ofName?_eq_some_iff {name : Text} {f : DebugFlag} :
    ofName? name = some f ↔ name = f.name := by
  constructor
  · intro h
    have hfound := List.find?_some h
    exact (of_decide_eq_true hfound).symm
  · rintro rfl
    cases f <;> rfl

namespace Command

/-- A command that sets something. -/
def sets : Command → Bool
  | .toggleFlag _ => true
  | .setFlag _ _ => true
  | .setLimit _ _ => true
  | .setPrompt _ => true
  | _ => false

private theorem settings_of_not_sets {c : Command} (h : c.sets = false) (s : Settings) :
    c.settings s = s := by
  cases c with
  | toggleFlag f => cases h
  | setFlag f on => cases h
  | setLimit limit n => cases h
  | setPrompt prompt => cases h
  | _ => rfl

/-! ### Reading a command that sets something -/

variable {args : List Text} {c : Command}

private theorem flag_eq_ok_iff {name : Text} {f : DebugFlag} :
    flag name = .ok f ↔ name = f.name := by
  rw [flag, ← DebugFlag.ofName?_eq_some_iff]
  cases DebugFlag.ofName? name <;> simp

private theorem switch_eq_ok_iff {name value : Text} {on : Bool} :
    switch name value = .ok on ↔ Text.readInt64? value = some (if on then 1 else 0) := by
  unfold switch
  cases Text.readInt64? value with
  | none => simp
  | some n =>
    by_cases h0 : n = 0
    · cases on <;> simp [h0]
    · by_cases h1 : n = 1
      · cases on <;> simp [h1]
      · cases on <;> simp [h0, h1]

private theorem readLimit_eq_setLimit {limit : LimitName} (h : readLimit limit args = .ok c)
    (hc : c.sets) :
    ∃ value n, args = [value] ∧ Text.readInt64? value = some n ∧ 0 < n ∧
      c = .setLimit limit n := by
  unfold readLimit at h
  split at h
  · cases h
    cases hc
  · next value =>
    split at h
    · next n hn =>
      split at h
      · next hpos => exact ⟨value, n, rfl, hn, hpos, (Except.ok.inj h).symm⟩
      · cases h
    · cases h
  · cases h

private theorem readHelp_sets (h : readHelp args = .ok c) : c.sets = false := by
  unfold readHelp at h
  split at h
  · cases h
    rfl
  · split at h
    · cases h
      rfl
    · cases h

private theorem readDebug_eq_setFlag (h : readDebug args = .ok c) (hc : c.sets) :
    (∃ f : DebugFlag, args = [f.name] ∧ c = .toggleFlag f) ∨
      ∃ (f : DebugFlag) (value : Text) (on : Bool), args = [f.name, value] ∧
        Text.readInt64? value = some (if on then 1 else 0) ∧ c = .setFlag f on := by
  unfold readDebug at h
  split at h
  · cases h
    cases hc
  · next name =>
    cases hf : flag name with
    | error e => simp [hf, bind, Except.bind] at h
    | ok f =>
      rw [hf] at h
      exact .inl ⟨f, by rw [flag_eq_ok_iff.mp hf], (Except.ok.inj h).symm⟩
  · next name value =>
    cases hs : switch name value with
    | error e => simp [hs, bind, Except.bind] at h
    | ok on =>
      cases hf : flag name with
      | error e => simp [hs, hf, bind, Except.bind] at h
      | ok f =>
        rw [hs, hf] at h
        exact .inr ⟨f, value, on, by rw [flag_eq_ok_iff.mp hf], switch_eq_ok_iff.mp hs,
          (Except.ok.inj h).symm⟩
  · cases h

private theorem readPrompt_eq_setPrompt {command name : Text}
    (h : readPrompt command name args = .ok c) (hc : c.sets) :
    args ≠ [] ∧ ∃ text,
      Text.unquote? (Text.trim (command.trim.drop name.length)) = some text ∧
        c = .setPrompt text := by
  unfold readPrompt at h
  split at h
  · cases h
    cases hc
  · next hne =>
    refine ⟨hne, ?_⟩
    split at h
    · next text htext => exact ⟨text, htext, (Except.ok.inj h).symm⟩
    · cases h

/-- A command that sets something and is accepted has one of the five forms. -/
private theorem sets_of_read {line command : Text} (hline : line.trim = 41 :: command)
    (h : read command = .ok c) (hc : c.sets) : line.Sets fun s ↦ c.settings s := by
  unfold read at h
  split at h
  · cases h
  · next name args hwords =>
    split at h
    · rw [readHelp_sets h] at hc
      cases hc
    split at h
    · next hname =>
      rw [hname] at hwords
      rcases readDebug_eq_setFlag h hc with ⟨f, rfl, rfl⟩ | ⟨f, value, on, rfl, hvalue, rfl⟩
      · exact .toggle hline hwords
      · exact .switch hline hwords hvalue
    split at h
    · split at h
      · cases h
        cases hc
      · cases h
    split at h
    · next hname =>
      rw [hname] at hwords
      obtain ⟨value, n, rfl, hvalue, hpos, rfl⟩ := readLimit_eq_setLimit h hc
      exact .depth hline hwords hvalue hpos
    split at h
    · next hname =>
      rw [hname] at hwords
      obtain ⟨value, n, rfl, hvalue, hpos, rfl⟩ := readLimit_eq_setLimit h hc
      exact .elements hline hwords hvalue hpos
    split at h
    · next hname =>
      obtain ⟨hargs, text, htext, rfl⟩ := readPrompt_eq_setPrompt h hc
      obtain ⟨arg, args, rfl⟩ := List.exists_cons_of_ne_nil hargs
      rw [hname] at hwords htext
      obtain ⟨rest, hrest⟩ := Text.isPrefix_trim_of_words hwords
      rw [← hrest, List.drop_left] at htext
      exact .prompt hline hwords hrest.symm htext
    split at h
    · cases h
      cases hc
    · cases h

/-- The command for the prompt with a quoted text after its name sets the prompt to that text. -/
theorem read_prompt {command arg rest text : Text}
    (hwords : command.words = Text.ofString "prompt" :: arg :: args)
    (hrest : command.trim = Text.ofString "prompt" ++ rest)
    (hquoted : Text.unquote? rest.trim = some text) : read command = .ok (.setPrompt text) := by
  have hread : read command = readPrompt command (Text.ofString "prompt") (arg :: args) := by
    rw [read, hwords]
    simp (disch := decide) only [if_neg, if_true]
  rw [hread]
  simp [readPrompt, hrest, hquoted]

end Command

/-- A line with a right parenthesis at its start is read as a command. -/
theorem Line.read_of_trim_eq {line command : Text} (h : line.trim = 41 :: command) :
    Line.read line = .command (Command.read command) := by
  unfold Line.read
  rw [h]
  rfl

/-- A line of one of the five forms is accepted as a command, which does to the settings what the
form says. -/
private theorem Text.Sets.read {line : Text} {update : Settings → Settings} (h : line.Sets update) :
    ∃ c : Command, Line.read line = .command (.ok c) ∧ c.sets ∧ ∀ s, c.settings s = update s := by
  cases h with
  | @depth command value n hline hwords hvalue hpos =>
    have hread : Command.read command = Command.readLimit .depth [value] := by
      rw [Command.read, hwords]
      rfl
    refine ⟨.setLimit .depth n, ?_, rfl, fun _ ↦ rfl⟩
    rw [Line.read_of_trim_eq hline, hread]
    simp [Command.readLimit, hvalue, hpos]
  | @elements command value n hline hwords hvalue hpos =>
    have hread : Command.read command = Command.readLimit .elements [value] := by
      rw [Command.read, hwords]
      rfl
    refine ⟨.setLimit .elements n, ?_, rfl, fun _ ↦ rfl⟩
    rw [Line.read_of_trim_eq hline, hread]
    simp [Command.readLimit, hvalue, hpos]
  | @prompt command arg rest text args hline hwords hrest hquoted =>
    refine ⟨.setPrompt text, ?_, rfl, fun _ ↦ rfl⟩
    rw [Line.read_of_trim_eq hline, Command.read_prompt hwords hrest hquoted]
  | @toggle command f hline hwords =>
    have hread : Command.read command = Command.readDebug [f.name] := by
      rw [Command.read, hwords]
      rfl
    refine ⟨.toggleFlag f, ?_, rfl, fun _ ↦ rfl⟩
    rw [Line.read_of_trim_eq hline, hread, Command.readDebug, Command.flag_eq_ok_iff.mpr rfl]
    rfl
  | @switch command value f on hline hwords hvalue =>
    have hread : Command.read command = Command.readDebug [f.name, value] := by
      rw [Command.read, hwords]
      rfl
    refine ⟨.setFlag f on, ?_, rfl, fun _ ↦ rfl⟩
    rw [Line.read_of_trim_eq hline, hread, Command.readDebug, Command.switch_eq_ok_iff.mpr hvalue,
      Command.flag_eq_ok_iff.mpr rfl]
    rfl

/-- What a line asks for sets something. -/
def Line.sets : Line → Bool
  | .command (.ok c) => c.sets
  | _ => false

/-- The lines of the five forms are those that are read as a command which sets something. -/
private theorem Text.isSetting_iff {line : Text} : line.IsSetting ↔ (Line.read line).sets := by
  constructor
  · rintro ⟨update, h⟩
    obtain ⟨c, hread, hc, -⟩ := h.read
    rw [hread]
    exact hc
  · intro h
    unfold Line.read at h
    dsimp only at h
    split at h
    · cases h
    split at h
    · next hhelp =>
      have hread : Command.read (ofString "help") = .ok .help := by decide +kernel
      rw [hhelp, hread] at h
      cases h
    split at h
    · next command hline =>
      cases hread : Command.read command with
      | error e =>
        rw [hread] at h
        cases h
      | ok c =>
        rw [hread] at h
        exact ⟨_, Command.sets_of_read hline hread h⟩
    · cases h

instance (line : Text) : Decidable line.IsSetting := decidable_of_iff' _ Text.isSetting_iff

namespace Settings

/-! ### Lines and sessions -/

private theorem runExpression_settings (s : Settings) (source : Text) :
    (s.runExpression source).settings = s := by
  unfold runExpression
  split
  · rfl
  · split <;> rfl

private theorem runCommand_settings (s : Settings) (input : Option Demo.Input) (c : Command) :
    (s.runCommand input c).settings = c.settings s := by
  unfold runCommand
  split
  · unfold runDemo endDemo
    dsimp only
    split <;> rfl
  · rfl

/-- The settings after a line are those before it, unless a command is accepted. -/
private theorem runLine_settings (s : Settings) (line : Text) (input : Option Demo.Input) :
    (s.runLine line input).settings =
      match Line.read line with
      | .command (.ok c) => c.settings s
      | _ => s := by
  unfold runLine
  cases Line.read line with
  | nothing => rfl
  | expression source => exact s.runExpression_settings source
  | command c =>
    cases c with
    | error e => rfl
    | ok c => exact s.runCommand_settings input c

/-- A line of none of the five forms changes nothing. -/
private theorem runLine_of_not_isSetting {line : Text} (h : ¬ line.IsSetting) (s : Settings)
    (input : Option Demo.Input) : (s.runLine line input).settings = s := by
  rw [Text.isSetting_iff] at h
  rw [runLine_settings]
  split
  · next c hread =>
    rw [hread] at h
    exact Command.settings_of_not_sets (Bool.eq_false_iff.mpr h) s
  · rfl

/-- A line of one of the five forms succeeds and does what its form says. -/
private theorem runLine_of_sets {line : Text} {update : Settings → Settings} (h : line.Sets update)
    (s : Settings) (input : Option Demo.Input) :
    (s.runLine line input).settings = update s ∧
      (s.runLine line input).status = .ok ⟨true, false⟩ := by
  obtain ⟨c, hread, hc, hupdate⟩ := h.read
  refine ⟨by rw [runLine_settings, hread, ← hupdate], ?_⟩
  rw [runLine, hread]
  cases c with
  | toggleFlag f => rfl
  | setFlag f on => rfl
  | setLimit limit n => rfl
  | setPrompt prompt => rfl
  | _ => cases hc

/-- The settings after some lines, each with the input for a demonstration. -/
def session (s : Settings) (steps : List (Text × Option Demo.Input)) : Settings :=
  steps.foldl (fun s step ↦ (s.runLine step.1 step.2).settings) s

/-- The lines that set nothing can be left out of a session. -/
private theorem session_filter (s : Settings) (steps : List (Text × Option Demo.Input)) :
    s.session (steps.filter fun step ↦ step.1.IsSetting) = s.session steps := by
  induction steps generalizing s with
  | nil => rfl
  | cons step steps ih =>
    have hcons : s.session (step :: steps) =
        (s.runLine step.1 step.2).settings.session steps := rfl
    by_cases h : step.1.IsSetting
    · rw [List.filter_cons_of_pos (by simpa using h), hcons, ← ih]
      rfl
    · rw [List.filter_cons_of_neg (by simpa using h), hcons, runLine_of_not_isSetting h, ih]

/-- Settings change by accepted commands only, so a session leaves what its accepted commands
leave. -/
theorem session_eq_accepted :
    (∀ line : Text, line.IsIdle → ¬ line.IsSetting) ∧
    (∀ (s : Settings) (line : Text) (input : Option Demo.Input), ¬ line.IsSetting →
      (s.runLine line input).settings = s) ∧
    (∀ (s : Settings) (line : Text) (input : Option Demo.Input),
      (s.runLine line input).status ≠ .ok ⟨true, false⟩ → (s.runLine line input).settings = s) ∧
    (∀ (s : Settings) (line : Text) (input : Option Demo.Input) (update : Settings → Settings),
      line.Sets update → (s.runLine line input).settings = update s ∧
        (s.runLine line input).status = .ok ⟨true, false⟩) ∧
    ∀ (s : Settings) (steps : List (Text × Option Demo.Input)),
      s.session steps = s.session (steps.filter fun step ↦ step.1.IsSetting) := by
  refine ⟨fun line h ↦ h.not_isSetting,
    fun s line input h ↦ runLine_of_not_isSetting h s input, ?_,
    fun s line input update h ↦ runLine_of_sets h s input,
    fun s steps ↦ (session_filter s steps).symm⟩
  intro s line input hstatus
  refine runLine_of_not_isSetting ?_ s input
  rintro ⟨update, h⟩
  exact hstatus (runLine_of_sets h s input).2

/-- Of these lines the first, the fourth and the sixth set something. The others are an expression
that fails, commands that are refused, a question, and the end of the session. -/
theorem session_eq_accepted_mixed :
    let settings := ({} : Settings).session ([")maxdepth 5", "1+", ")maxdepth 0", ")debug types",
      ")maxelements", " )prompt \"> \"", ")debug colour 1", ")quit"].map fun line ↦
        (Text.ofString line, none))
    (({} : Settings).runLine (Text.ofString ")maxdepth 5") none).settings = { depthLimit := 5 } ∧
    (({} : Settings).runLine (Text.ofString ")quit") none).settings = {} ∧
    settings.prompt = Text.ofString "> " ∧ settings.history = [] ∧ settings.depthLimit = 5 ∧
    settings.elementLimit = 0 ∧ ∀ flag, settings.debug flag = decide (flag = .types) := by
  obtain ⟨-, -, hstatus, hset, hfilter⟩ := session_eq_accepted
  have hline : (Text.ofString ")maxdepth 5").trim = 41 :: Text.ofString "maxdepth 5" := by
    decide +kernel
  have hwords : (Text.ofString "maxdepth 5").words =
      [Text.ofString "maxdepth", Text.ofString "5"] := by
    decide +kernel
  have hdepth : (Text.ofString ")maxdepth 5").Sets fun s ↦ { s with depthLimit := 5 } :=
    .depth hline hwords (by decide +kernel) (by decide)
  intro settings
  have hsettings : settings = ({} : Settings).session ([")maxdepth 5", ")debug types",
      " )prompt \"> \""].map fun line ↦ (Text.ofString line, none)) := by
    refine (hfilter _ _).trans (congrArg _ ?_)
    decide +kernel
  refine ⟨(hset _ _ none _ hdepth).1, hstatus _ _ _ (by decide +kernel), ?_⟩
  rw [hsettings]
  refine ⟨by decide +kernel, by decide +kernel, by decide +kernel, by decide +kernel, ?_⟩
  intro flag
  cases flag <;> decide +kernel

end Settings

end Ravel
