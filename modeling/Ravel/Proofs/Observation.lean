import Ravel.Proofs.Places

/-!
# What the debug flags show

The flags `tokens`, `parse`, `types` and `trace` each show a text of their own, which depends on the
source and on the limits and on no other flag (`DebugFlag.view`). What a run emits is put together
from these texts, and its result is made without a look at them: of all flags only `panic` has a
part in the answer to a source (`Settings.flags_only_observe`).
-/

namespace Ravel

namespace Limits

/-- The tree of a source, if its tokens have one. -/
def tree? (limits : Limits) (source : Text) : Option Tree :=
  match Token.tokenize source with
  | .error _ => none
  | .ok tokens => (Tree.parse limits.depth tokens).toOption

/-- The end of the evaluation of a source and the context afterwards, if the source has an
expression. -/
def evaluation? (limits : Limits) (source : Text) :
    Option (Except (Halt EvalError) Noun × Context) :=
  match limits.tree? source with
  | none => none
  | some tree =>
    match tree.resolve (Context.start limits) with
    | (.error _, _) => none
    | (.ok e, c) => some (e.eval c)

end Limits

/-- What a flag shows of a source: the lines of the tokens up to the first place that starts none,
the outline of the tree, the shape of the result, and the applications of verbs up to the first one
that fails. A report of time is no matter of the source. -/
def DebugFlag.view (limits : Limits) (source : Text) : DebugFlag → Text
  | .tokens => (Token.scan source).listing
  | .parse =>
    match limits.tree? source with
    | none => []
    | some tree => tree.outline.line
  | .types =>
    match limits.evaluation? source with
    | some (.ok a, _) => a.typeLine
    | _ => []
  | .trace =>
    match limits.evaluation? source with
    | none => []
    | some (_, c) => c.trace
  | .cpu => []
  | .panic => []

namespace Emission

/-- The output of emissions is that of the first ones and then that of the others. -/
theorem outText_append (es fs : List Emission) : outText (es ++ fs) = outText es ++ outText fs :=
  List.flatMap_append

/-- The error output of emissions is that of the first ones and then that of the others. -/
theorem errText_append (report : Text) (es fs : List Emission) :
    errText report (es ++ fs) = errText report es ++ errText report fs :=
  List.flatMap_append

end Emission

namespace Settings

open Emission

variable {s s' : Settings} {source : Text}

/-- What a flag shows if it is on. -/
def seen (s : Settings) (source : Text) (flag : DebugFlag) : Text :=
  if s.debug flag then flag.view s.limits source else []

private theorem outText_emit (s : Settings) (flag : DebugFlag) (e : Emission) :
    outText (s.emit flag e) = if s.debug flag then e.toOut else [] := by
  unfold emit
  split <;> simp [outText]

private theorem errText_emit (s : Settings) (flag : DebugFlag) (report : Text) (e : Emission) :
    errText report (s.emit flag e) = if s.debug flag then e.toErr report else [] := by
  unfold emit
  split <;> simp [errText]

/-! ### The result -/

private theorem runTree_result_congr (h : s.limits = s'.limits) (tree : Tree) :
    (s.runTree tree).result = (s'.runTree tree).result := by
  unfold runTree
  rw [h]
  rcases tree.resolve (Context.start s'.limits) with ⟨_ | e, c⟩
  · rfl
  · dsimp only
    rcases e.eval c with ⟨_ | a, c⟩ <;> rfl

/-- A run comes to the same with the same limits. -/
theorem run_result_congr (h : s.limits = s'.limits) (source : Text) :
    (s.run source).result = (s'.run source).result := by
  have hdepth : s.maxDepth = s'.maxDepth := congrArg Limits.depth h
  rw [run_result, run_result, hdepth]
  cases Token.tokenize source with
  | error e => rfl
  | ok tokens =>
    dsimp only
    cases Tree.parse s'.maxDepth tokens with
    | error e => rfl
    | ok tree => exact runTree_result_congr h tree

/-- The answer to a source is made of the result of its run. -/
theorem answer_fst (s : Settings) (source : Text) :
    (s.answer source).1 =
      match Answer.ofResult (s.run source).result with
      | .ok answer => .ok answer
      | .error f => if s.debug .panic then .error f else .ok f.answer := by
  unfold answer
  dsimp only
  cases Answer.ofResult (s.run source).result <;> rfl

/-- An answer comes with what its run has emitted. -/
theorem answer_snd (s : Settings) (source : Text) :
    (s.answer source).2 = (s.run source).emissions := by
  unfold answer
  dsimp only
  cases Answer.ofResult (s.run source).result <;> rfl

/-! ### The emissions -/

/-- The stages that a run comes through, with what each of them emits. -/
inductive Emits (s : Settings) (source : Text) : List Emission → Prop where
  | scanned (ht : s.limits.tree? source = none) (he : s.limits.evaluation? source = none) :
      Emits s source (s.emit .tokens (.out (Token.scan source).listing))
  | parsed {tree : Tree} (ht : s.limits.tree? source = some tree)
      (he : s.limits.evaluation? source = none) :
      Emits s source (s.emit .tokens (.out (Token.scan source).listing) ++
        s.emit .parse (.out tree.outline.line))
  | failed {tree : Tree} {e : Halt EvalError} {c : Context}
      (ht : s.limits.tree? source = some tree)
      (he : s.limits.evaluation? source = some (.error e, c)) :
      Emits s source (s.emit .tokens (.out (Token.scan source).listing) ++
        s.emit .parse (.out tree.outline.line) ++ s.emit .trace (.err c.trace))
  | evaluated {tree : Tree} {a : Noun} {c : Context} (ht : s.limits.tree? source = some tree)
      (he : s.limits.evaluation? source = some (.ok a, c)) :
      Emits s source (s.emit .tokens (.out (Token.scan source).listing) ++
        s.emit .parse (.out tree.outline.line) ++
          (s.emit .trace (.err c.trace) ++ s.emit .types (.out a.typeLine)))

/-- A run emits nothing else. -/
private theorem emits_runStages (s : Settings) (source : Text) :
    s.Emits source (s.runStages source).emissions := by
  have htree : s.limits.tree? source = (Token.scan source).error.elim
      (Tree.parse s.maxDepth (Token.scan source).tokens).toOption fun _ ↦ none := by
    unfold Limits.tree? Token.tokenize
    rcases Token.scan source with ⟨tokens, _ | e⟩ <;> rfl
  unfold runStages
  dsimp only
  cases hs : (Token.scan source).error with
  | some e =>
    rw [hs, Option.elim_some] at htree
    exact .scanned htree (by simp only [Limits.evaluation?, htree])
  | none =>
    rw [hs, Option.elim_none] at htree
    cases hp : Tree.parse s.maxDepth (Token.scan source).tokens with
    | error e =>
      rw [hp] at htree
      exact .scanned htree (by rw [Limits.evaluation?, htree]; rfl)
    | ok tree =>
      rw [hp] at htree
      have heval : s.limits.evaluation? source =
          match tree.resolve (Context.start s.limits) with
          | (.error _, _) => none
          | (.ok e, c) => some (e.eval c) := by
        rw [Limits.evaluation?, htree]
        rfl
      unfold runTree
      dsimp only
      rcases hr : tree.resolve (Context.start s.limits) with ⟨e | e, c⟩
      · rw [hr] at heval
        rw [List.append_nil]
        exact .parsed htree heval
      · rw [hr] at heval
        dsimp only at heval ⊢
        rcases hv : e.eval c with ⟨x | a, c⟩
        · exact .failed htree (heval.trans (congrArg some hv))
        · exact .evaluated htree (heval.trans (congrArg some hv))

/-- The output of a run: the lines of the tokens, the outline of the tree and the shape of the
result, each if its flag is on. -/
private theorem outText_run (s : Settings) (source : Text) :
    outText (s.run source).emissions =
      s.seen source .tokens ++ s.seen source .parse ++ s.seen source .types := by
  have hemits := s.emits_runStages source
  unfold run seen
  rw [outText_append, outText_emit]
  generalize (s.runStages source).emissions = es at hemits
  cases hemits with
  | scanned ht he => simp [DebugFlag.view, outText_emit, ht, he, toOut]
  | parsed ht he => simp [DebugFlag.view, outText_append, outText_emit, ht, he, toOut]
  | failed ht he => simp [DebugFlag.view, outText_append, outText_emit, ht, he, toOut]
  | evaluated ht he => simp [DebugFlag.view, outText_append, outText_emit, ht, he, toOut]

/-- The error output of a run: the applications of verbs and a report of time, each if its flag is
on. -/
theorem errText_run (s : Settings) (source report : Text) :
    errText report (s.run source).emissions =
      s.seen source .trace ++ if s.debug .cpu then report else [] := by
  have hemits := s.emits_runStages source
  unfold run seen
  rw [errText_append, errText_emit]
  generalize (s.runStages source).emissions = es at hemits
  cases hemits with
  | scanned ht he => simp [DebugFlag.view, errText_emit, he, toErr]
  | parsed ht he => simp [DebugFlag.view, errText_append, errText_emit, he, toErr]
  | failed ht he => simp [DebugFlag.view, errText_append, errText_emit, he, toErr]
  | evaluated ht he => simp [DebugFlag.view, errText_append, errText_emit, he, toErr]

/-- A run emits nothing if all flags but `panic` are off. -/
theorem emissions_run_of_off (h : ∀ flag, flag ≠ .panic → s.debug flag = false) (source : Text) :
    (s.run source).emissions = [] := by
  have hemit (flag : DebugFlag) (hf : flag ≠ .panic) (e : Emission) : s.emit flag e = [] := by
    simp [emit, h flag hf]
  have hemits := s.emits_runStages source
  unfold run
  dsimp only
  generalize (s.runStages source).emissions = es at hemits
  cases hemits <;> simp [hemit]

/-- The flags other than `panic` change no answer, and what each of them shows does not depend on
the others. -/
theorem flags_only_observe (source : Text) :
    (∀ s s' : Settings, s.limits = s'.limits → s.debug .panic = s'.debug .panic →
      (s.answer source).1 = (s'.answer source).1) ∧
    (∀ s : Settings, (∀ flag, flag ≠ .panic → s.debug flag = false) →
      (s.answer source).2 = []) ∧
    ∀ (s : Settings) (report : Text),
      outText (s.answer source).2 =
        (if s.debug .tokens then DebugFlag.tokens.view s.limits source else []) ++
        (if s.debug .parse then DebugFlag.parse.view s.limits source else []) ++
        (if s.debug .types then DebugFlag.types.view s.limits source else []) ∧
      errText report (s.answer source).2 =
        (if s.debug .trace then DebugFlag.trace.view s.limits source else []) ++
        (if s.debug .cpu then report else []) := by
  refine ⟨?_, ?_, ?_⟩
  · intro s s' hlimits hpanic
    rw [answer_fst, answer_fst, run_result_congr hlimits, hpanic]
  · intro s hoff
    rw [answer_snd, emissions_run_of_off hoff]
  · intro s report
    rw [answer_snd]
    exact ⟨s.outText_run source, s.errText_run source report⟩

/-- With all flags on but `panic`, `1+~2` gives the same answer as with none, and its output is that
of `tokens`, of `parse` and of `types`. -/
theorem flags_only_observe_sum :
    (({ debug := fun flag ↦ flag ≠ .panic } : Settings).answer (Text.ofString "1+~2")).1 =
      (({} : Settings).answer (Text.ofString "1+~2")).1 ∧
    (({} : Settings).answer (Text.ofString "1+~2")).2 = [] ∧
    outText (({ debug := fun flag ↦ flag ≠ .panic } : Settings).answer (Text.ofString "1+~2")).2 =
      Text.ofString "0: emit Number: \"1\"\n1: emit Verb: \"+\"\n2: emit Verb: \"~\"\n" ++
      Text.ofString "3: emit Number: \"2\"\n(<1> + (~ <2>))\nvalue.Array [2]\n" := by
  obtain ⟨hanswer, hoff, htexts⟩ := flags_only_observe (Text.ofString "1+~2")
  refine ⟨hanswer _ _ rfl rfl, hoff {} fun _ _ ↦ rfl, ?_⟩
  rw [(htexts _ []).1]
  decide +kernel

end Settings

end Ravel
