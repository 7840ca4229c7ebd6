import Ravel.Proofs.Display
import Ravel.Proofs.Run

/-!
# The errors of each stage

Each verb reports errors of a few kinds only (`DyadicForm.errorKinds`), and none of them is the
limit of depth. An expression that was resolved is not nested too deeply and has no verb without its
form, so that its evaluation ends in no other errors than those of the verbs
(`Expr.Formed.ofVerb`). A verb that resolving refuses stands at a place of the source
(`Tree.Placed.located`). The answer to a source starts with `Error: ` exactly if the source has no
result (`Settings.error_isPrefix_answer_iff`).
-/

namespace Ravel

/-! ### The errors of verbs -/

/-- The kinds of errors that a monadic form reports. -/
def MonadicForm.errorKinds : MonadicForm → List ValueError.Kind
  | .iota => [.invalidArgument, .sizeLimitExceeded]
  | .identity | .tally | .ravel | .box => []

/-- The kinds of errors that a dyadic form reports. -/
def DyadicForm.errorKinds : DyadicForm → List ValueError.Kind
  | .add => [.shapeMismatch, .invalidArgument]
  | .find => []
  | .reshape => [.invalidShape, .sizeLimitExceeded, .invalidArgument]
  | .from => [.sizeLimitExceeded, .indexOutOfRange]
  | .append => [.shapeMismatch, .sizeLimitExceeded]
  | .lessThan => [.shapeMismatch]

section Verbs

variable {limit : Int64} {x : ValueError}

private theorem kind_of_checkCount {verb : Text} {count : Int64}
    (h : checkCount limit verb count = .error (.error x)) : x.kind = .sizeLimitExceeded := by
  unfold checkCount at h
  split at h
  · cases h
    rfl
  · cases h

namespace Noun

private theorem kind_of_iota {a : Noun} (h : a.iota limit = .error (.error x)) :
    x.kind ∈ MonadicForm.iota.errorKinds := by
  unfold iota at h
  split at h
  · cases h
    exact List.mem_cons_self
  · cases ha : a.element 0 with
    | error f => rw [ha] at h; cases h
    | ok n =>
      rw [ha] at h
      dsimp only at h
      split at h
      · cases h
        exact List.mem_cons_self
      · cases hc : checkCount limit MonadicForm.iota.name n with
        | error e =>
          rw [hc] at h
          cases h
          rw [kind_of_checkCount hc]
          decide
        | ok u =>
          rw [hc] at h
          simp only [bind, Except.bind] at h
          split at h <;> cases h

/-- An element-by-element verb fails if the shapes differ or a pair of elements fails. -/
private theorem elementwise_eq_error {verb : Text} {f : Int64 → Int64 → Except ValueError Int64}
    {u v : Noun} (h : elementwise verb f u v = .error (.error x)) :
    x.kind = .shapeMismatch ∨ ∃ p q, f p q = .error x := by
  unfold elementwise at h
  split at h
  · next e hs =>
    cases h
    unfold commonShape at hs
    split at hs
    · split at hs <;> cases hs
    · split at hs
      · cases hs
      · split at hs
        · cases hs
        · cases hs
          exact .inl rfl
  · cases h
  · split at h
    · next e hm =>
      cases h
      obtain ⟨p, -, hp⟩ := exists_of_mapM_eq_error hm
      exact .inr ⟨p.1, p.2, hp⟩
    · cases h

private theorem kind_of_add {u v : Noun} (h : u.add v = .error (.error x)) :
    x.kind ∈ DyadicForm.add.errorKinds := by
  rcases elementwise_eq_error h with hk | ⟨p, q, hf⟩
  · rw [hk]
    decide
  · unfold addElements at hf
    dsimp only at hf
    split at hf
    · cases hf
      exact List.mem_cons_of_mem _ List.mem_cons_self
    · cases hf

private theorem kind_of_lessThan {u v : Noun} (h : u.lessThan v = .error (.error x)) :
    x.kind ∈ DyadicForm.lessThan.errorKinds := by
  rcases elementwise_eq_error h with hk | ⟨p, q, hf⟩
  · rw [hk]
    decide
  · cases hf

private theorem kind_of_reshape {u v : Noun} (h : u.reshape limit v = .error (.error x)) :
    x.kind ∈ DyadicForm.reshape.errorKinds := by
  unfold reshape at h
  split at h
  · cases h
    exact List.mem_cons_self
  · dsimp only at h
    split at h
    · cases h
      exact List.mem_cons_self
    · split at h
      · cases h
        exact List.mem_cons_of_mem _ List.mem_cons_self
      · split at h
        · cases h
          exact List.mem_cons_of_mem _ (List.mem_cons_of_mem _ List.mem_cons_self)
        · split at h <;> cases h

private theorem kind_of_collectItems {items itemSize : Int64} {data collected : Array Int64}
    {ks : List Int64} (h : collectItems items itemSize data collected ks = .error (.error x)) :
    x.kind = .indexOutOfRange := by
  induction ks generalizing collected with
  | nil => cases h
  | cons k ks ih =>
    rw [collectItems] at h
    split at h
    · cases h
      rfl
    · dsimp only at h
      split at h
      · cases h
      · exact ih h

private theorem kind_of_select {u v : Noun} (h : u.select limit v = .error (.error x)) :
    x.kind ∈ DyadicForm.from.errorKinds := by
  unfold select at h
  dsimp only at h
  cases hc : checkCount limit DyadicForm.from.name (Int64.ofNat u.size * product v.itemShape) with
  | error e =>
    rw [hc] at h
    cases h
    rw [kind_of_checkCount hc]
    decide
  | ok _ =>
    rw [hc] at h
    simp only [bind, Except.bind] at h
    split at h
    · cases h
    · cases hi : collectItems v.items (product v.itemShape) v.data #[] u.data.toList with
      | error e =>
        rw [hi] at h
        cases h
        rw [kind_of_collectItems hi]
        decide
      | ok data => rw [hi] at h; cases h

private theorem kind_of_appendShape {u v : Noun} (h : appendShape u v = .error x) :
    x.kind = .shapeMismatch := by
  unfold appendShape at h
  split at h
  · cases h
  · split at h
    · cases h
    · cases h
      rfl
  · cases h
    rfl

private theorem kind_of_append {u v : Noun} (h : u.append limit v = .error (.error x)) :
    x.kind ∈ DyadicForm.append.errorKinds := by
  unfold append at h
  cases hs : appendShape u v with
  | error e =>
    rw [hs] at h
    cases h
    rw [kind_of_appendShape hs]
    decide
  | ok shape =>
    rw [hs] at h
    dsimp only at h
    cases hc : checkCount limit DyadicForm.append.name
        (Int64.ofNat u.size + Int64.ofNat v.size) with
    | error e =>
      rw [hc] at h
      cases h
      rw [kind_of_checkCount hc]
      decide
    | ok _ => rw [hc] at h; cases h

end Noun

private theorem MonadicForm.kind_of_apply {form : MonadicForm} {a : Noun}
    (h : form.apply limit a = .error (.error x)) : x.kind ∈ form.errorKinds := by
  cases form with
  | iota => exact Noun.kind_of_iota h
  | identity => cases h
  | tally => cases h
  | ravel => cases h
  | box => cases h

/-- A dyadic form reports errors of its own kinds only. -/
private theorem DyadicForm.kind_of_apply {form : DyadicForm} {u v : Noun}
    (h : form.apply limit u v = .error (.error x)) : x.kind ∈ form.errorKinds := by
  cases form with
  | add => exact Noun.kind_of_add h
  | find => cases h
  | reshape => exact Noun.kind_of_reshape h
  | «from» => exact Noun.kind_of_select h
  | append => exact Noun.kind_of_append h
  | lessThan => exact Noun.kind_of_lessThan h

end Verbs

/-! ### The errors of an evaluation -/

/-- The kinds of errors that an evaluation ends in: all but the limit of depth. -/
def ValueError.Kind.ofEvaluation : List ValueError.Kind :=
  [.shapeMismatch, .invalidShape, .indexOutOfRange, .invalidArgument, .sizeLimitExceeded]

/-- An error of a verb, not of a form that it lacks or of the depth. -/
def EvalError.OfVerb (x : EvalError) : Prop :=
  ∃ e : ValueError, x = .value e ∧ e.kind ∈ ValueError.Kind.ofEvaluation

/-- Putting the error of a verb in other words keeps its kind. -/
private theorem ofVerb_of_mapError (kinds : List ValueError.Kind)
    (hk : ∀ k ∈ kinds, k ∈ ValueError.Kind.ofEvaluation) {r : Except (Halt ValueError) Noun}
    (hr : ∀ e, r = .error (.error e) → e.kind ∈ kinds) {x : EvalError}
    (h : r.mapError (Halt.map .value) = .error (.error x)) : x.OfVerb := by
  cases r with
  | ok a => cases h
  | error y =>
    cases y with
    | error e =>
      cases h
      exact ⟨e, rfl, hk _ (hr e rfl)⟩
    | fault f => cases h

namespace Verb

variable {limit : Int64} {mark : UInt8} {x : EvalError}

private theorem ofVerb_of_monadic {a : Noun} (hm : (monadic? mark).isSome)
    (h : apply limit none mark a = .error (.error x)) : x.OfVerb := by
  obtain ⟨form, hf⟩ := Option.isSome_iff_exists.mp hm
  simp only [apply, hf] at h
  refine ofVerb_of_mapError form.errorKinds ?_ (fun e he ↦ form.kind_of_apply he) h
  cases form <;> decide

private theorem ofVerb_of_dyadic {a b : Noun} (hm : (dyadic? mark).isSome)
    (h : apply limit (some a) mark b = .error (.error x)) : x.OfVerb := by
  obtain ⟨form, hf⟩ := Option.isSome_iff_exists.mp hm
  simp only [apply, hf] at h
  refine ofVerb_of_mapError form.errorKinds ?_ (fun e he ↦ form.kind_of_apply he) h
  cases form <;> decide

end Verb

/-- An expression whose verbs have their forms fails with an error of a verb. -/
theorem Expr.Formed.ofVerb {limit : Int64} {e : Expr} (he : e.Formed) {x : EvalError}
    (h : e.value limit = .error (.error x)) : x.OfVerb := by
  induction e generalizing x with
  | noun a => cases h
  | monad mark right ih =>
    rw [value] at h
    cases hr : right.value limit with
    | error y =>
      rw [hr] at h
      cases h
      exact ih he.2 hr
    | ok b =>
      rw [hr] at h
      exact Verb.ofVerb_of_monadic he.1 h
  | dyad left mark right ihl ihr =>
    rw [value] at h
    cases hr : right.value limit with
    | error y =>
      rw [hr] at h
      cases h
      exact ihr he.2.2 hr
    | ok b =>
      rw [hr] at h
      cases hl : left.value limit with
      | error y =>
        rw [hl] at h
        cases h
        exact ihl he.2.1 hl
      | ok a =>
        rw [hl] at h
        exact Verb.ofVerb_of_dyadic he.1 h

/-! ### The errors of resolving -/

/-- An error of resolving that names a place of the source or the limit of depth. -/
def ResolveError.Located : ResolveError → Prop
  | .form e => 0 ≤ e.offset
  | .depth e => e.kind = .recursionLimitExceeded
  | .hole => False

namespace Tree

/-- No operand is missing, and every verb stands at a place of the source. -/
def Placed : Tree → Prop
  | .literal _ _ => True
  | .monad _ right offset => 0 ≤ offset ∧ right.Placed
  | .dyad left _ right offset => 0 ≤ offset ∧ left.Placed ∧ right.Placed
  | .paren inner _ => inner.Placed
  | .hole => False

/-- A tree that is derived from placed tokens is placed. -/
private theorem Derives.placed {p : Phrase} {n : Nat} {ts : List Token} {t : Tree}
    (h : Derives p n ts t) (ht : ∀ v ∈ ts, 0 ≤ v.offset) : t.Placed := by
  induction h with
  | literal hk ha => exact True.intro
  | @monad v mark n ts r hk hm hr ih =>
    exact ⟨ht v List.mem_cons_self, ih fun u hu ↦ ht u (List.mem_cons_of_mem v hu)⟩
  | @paren opening closing n ts inner ho hc hd ih =>
    exact ih fun u hu ↦ ht u (List.mem_cons_of_mem opening (List.mem_append_left _ hu))
  | single hd ih => exact ih ht
  | @dyad v mark m n ts us l r hl hk hm hr ihl ihr =>
    refine ⟨ht v (List.mem_append_right ts List.mem_cons_self),
      ihl fun u hu ↦ ht u (List.mem_append_left _ hu), ihr fun u hu ↦ ht u ?_⟩
    exact List.mem_append_right ts (List.mem_cons_of_mem v hu)

/-- A level that is not resolved is one too many, or what is on it is not resolved. -/
theorem deeper_eq_error {c : Context} {part : Context → Except ResolveError Expr × Context}
    {x : ResolveError} (h : (deeper c part).1 = .error x) :
    x = .depth (.tooDeep c.limits.depth none) ∨ ∃ c', (part c').1 = .error x := by
  unfold deeper at h
  split at h
  · next e he =>
    unfold Context.enter at he
    split at he
    · cases he
      cases h
      exact .inl rfl
    · cases he
  · next c' _ => exact .inr ⟨c', h⟩

/-- A verb with nothing on its left is not resolved for its depth, for its operand, or for want of
the form. -/
theorem resolve_monad_eq_error {mark : UInt8} {right : Tree} {offset : Int} {c : Context}
    {x : ResolveError} (h : ((monad mark right offset).resolve c).1 = .error x) :
    x = .depth (.tooDeep c.limits.depth none) ∨ (∃ c', (right.resolve c').1 = .error x) ∨
      ¬ (Verb.monadic? mark).isSome ∧ x = .form ⟨.noMonadicForm, mark, offset⟩ := by
  rw [resolve] at h
  rcases deeper_eq_error h with hx | ⟨d, hd⟩
  · exact .inl hx
  · cases hr : right.resolve d with
    | mk result d' =>
      rw [hr] at hd
      cases result with
      | error y =>
        cases hd
        exact .inr (.inl ⟨d, by rw [hr]⟩)
      | ok r =>
        dsimp only at hd
        split at hd
        · cases hd
        · next hm =>
          cases hd
          exact .inr (.inr ⟨hm, rfl⟩)

/-- A verb between two operands is not resolved for its depth, for one of its operands, or for want
of the form. -/
theorem resolve_dyad_eq_error {left right : Tree} {mark : UInt8} {offset : Int} {c : Context}
    {x : ResolveError} (h : ((dyad left mark right offset).resolve c).1 = .error x) :
    x = .depth (.tooDeep c.limits.depth none) ∨ (∃ c', (right.resolve c').1 = .error x) ∨
      (∃ c', (left.resolve c').1 = .error x) ∨
      ¬ (Verb.dyadic? mark).isSome ∧ x = .form ⟨.noDyadicForm, mark, offset⟩ := by
  rw [resolve] at h
  rcases deeper_eq_error h with hx | ⟨d, hd⟩
  · exact .inl hx
  · cases hr : right.resolve d with
    | mk result d' =>
      rw [hr] at hd
      cases result with
      | error y =>
        cases hd
        exact .inr (.inl ⟨d, by rw [hr]⟩)
      | ok r =>
        dsimp only at hd
        cases hl : left.resolve d' with
        | mk result d'' =>
          rw [hl] at hd
          cases result with
          | error y =>
            cases hd
            exact .inr (.inr (.inl ⟨d', by rw [hl]⟩))
          | ok l =>
            dsimp only at hd
            split at hd
            · cases hd
            · next hm =>
              cases hd
              exact .inr (.inr (.inr ⟨hm, rfl⟩))

/-- A placed tree is refused at a place of the source or for its depth. -/
theorem Placed.located {t : Tree} (ht : t.Placed) {c : Context} {x : ResolveError}
    (h : (t.resolve c).1 = .error x) : x.Located := by
  induction t generalizing c x with
  | literal value offset => cases h
  | hole => exact ht.elim
  | paren inner offset ih =>
    rw [resolve] at h
    rcases deeper_eq_error h with rfl | ⟨c', hc⟩
    · rfl
    · exact ih ht hc
  | monad mark right offset ih =>
    rcases resolve_monad_eq_error h with rfl | ⟨c', hr⟩ | ⟨-, rfl⟩
    · rfl
    · exact ih ht.2 hr
    · exact ht.1
  | dyad left mark right offset ihl ihr =>
    rcases resolve_dyad_eq_error h with rfl | ⟨c', hr⟩ | ⟨c', hl⟩ | ⟨-, rfl⟩
    · rfl
    · exact ihr ht.2.2 hr
    · exact ihl ht.2.1 hl
    · exact ht.1

end Tree

/-! ### The errors of a run -/

/-- The errors that the stages report: those of scanning, tokens that are misplaced or nested too
deeply, verbs at a place of the source that lack a form or are nested too deeply, and the errors of
verbs. -/
inductive StageError.Reported : StageError → Prop where
  | tokenize (e : ScanError) : Reported (.tokenize e)
  | misplaced (kind : ParseError.Kind) (token : Token) : Reported (.parse (.misplaced kind token))
  | tooDeep (limit : Int64) (offset : Int) : Reported (.parse (.tooDeep limit offset))
  | form {e : SemanticError} (h : 0 ≤ e.offset) : Reported (.semantic (.form e))
  | depth {e : ValueError} (h : e.kind = .recursionLimitExceeded) : Reported (.semantic (.depth e))
  | value {e : EvalError} (h : e.OfVerb) : Reported (.eval e)

namespace Settings

variable {s : Settings} {source : Text}

/-- A run that ends in an error reports it. -/
private theorem reported_of_run {x : StageError} (h : (s.run source).result = .error (.error x)) :
    x.Reported := by
  rcases stage_of_run h with ⟨y, rfl, -⟩ | ⟨y, rfl, -⟩ | ⟨y, tree, rfl, -, hp, hr⟩ |
    ⟨y, e, rfl, he, hv⟩
  · exact .tokenize y
  · cases y with
    | misplaced kind token => exact .misplaced kind token
    | tooDeep limit offset => exact .tooDeep limit offset
  · obtain ⟨n, hd, -⟩ := (Tree.parse_eq_ok_iff_derives fun _ ht ↦
      Token.kind_ne_eof_of_mem_tokens ht).mp hp
    have hplaced : tree.Placed := by
      refine hd.placed fun v hv ↦ ?_
      obtain ⟨before, b, rest, -, -, ho⟩ := Token.mem_tokens_scan hv
      rw [ho]
      exact Int.natCast_nonneg _
    have hlocated := hplaced.located hr
    cases y with
    | form y => exact .form hlocated
    | depth y => exact .depth hlocated
    | hole => exact hlocated.elim
  · exact .value (he.formed.ofVerb hv)

/-- If no fault escapes there is an answer, which starts as an error exactly if there is no
result. -/
theorem error_isPrefix_answer_iff (hp : s.debug .panic = false) :
    ∃ answer, (s.answer source).1 = .ok answer ∧
      (Text.ofString "Error: " <+: answer.text ↔ answer.ok = false) := by
  have hfault (f : Fault) : Text.ofString "Error: " <+: f.answer.text ↔ f.answer.ok = false :=
    ⟨fun _ ↦ rfl, fun _ ↦ ⟨Text.ofString "internal error: " ++ f.message, rfl⟩⟩
  unfold answer
  dsimp only
  cases hr : (s.run source).result with
  | ok a =>
    cases hd : a.display with
    | ok text =>
      have hf := Noun.figures_of_display hd
      refine ⟨⟨text, true⟩, ?_, fun h ↦ absurd h hf.not_error_isPrefix, nofun⟩
      simp only [Answer.ofResult, hd]
      rfl
    | error f =>
      refine ⟨f.answer, ?_, hfault f⟩
      simp only [Answer.ofResult, hd, hp]
      rfl
  | error x =>
    cases x with
    | error e => exact ⟨⟨renderError e.message, false⟩, rfl, fun _ ↦ rfl, fun _ ↦ ⟨e.message, rfl⟩⟩
    | fault f =>
      refine ⟨f.answer, ?_, hfault f⟩
      simp only [Answer.ofResult, hp]
      rfl

/-- Every stage reports errors of its own kinds, and an answer starts with `Error: ` exactly if
there is no result. -/
theorem errors_by_stage (s : Settings) (source : Text) :
    (∀ x, (s.run source).result = .error (.error x) → x.Reported) ∧
    (∀ (tree : Tree) (c : Context) (e : Expr), (tree.resolve c).1 = .ok e →
      ∀ x, (e.eval (tree.resolve c).2).1 = .error (.error x) → x.OfVerb) ∧
    (s.debug .panic = false → ∃ answer, (s.answer source).1 = .ok answer ∧
      (Text.ofString "Error: " <+: answer.text ↔ answer.ok = false)) := by
  refine ⟨fun x hx ↦ reported_of_run hx, fun tree c e hr x hx ↦ ?_, error_isPrefix_answer_iff⟩
  obtain ⟨hv, hf⟩ := Tree.eval_of_resolve hr
  rw [hv] at hx
  exact hf.ofVerb hx

/-- `-` has no monadic form, and `1+-1` says so of the third byte. -/
theorem errors_by_stage_minus :
    (StageError.semantic (.form ⟨.noMonadicForm, 45, 2⟩)).Reported ∧
    ∃ answer, (({} : Settings).answer (Text.ofString "1+-1")).1 = .ok answer ∧
      (Text.ofString "Error: " <+: answer.text ↔ answer.ok = false) :=
  ⟨(errors_by_stage {} (Text.ofString "1+-1")).1 _ rfl,
    (errors_by_stage {} (Text.ofString "1+-1")).2.2 rfl⟩

end Settings

end Ravel
