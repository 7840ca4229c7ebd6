import Ravel.Proofs.Observation
import Ravel.Proofs.Readback

/-!
# The history of an evaluation

The verbs of an expression are visited from right to left, each after its operands (`Expr.verbs`).
An evaluation applies them in this order and stops at the first that cannot be applied, for the
depth, for its operands or for the verb itself; those before it are its history
(`Expr.performed`). The evaluation goes down and up, and applies verbs of operands before it knows
of the others: that each of its parts adds to the history just what the visits of that part add
(`Context.Logs`) is kept by running a part one level deeper, by going on after a part and by the
application of a verb. The trace of an evaluation is the history, a line to an application
(`Expr.trace_eval`).
-/

namespace Ravel

/-! ### Lines -/

/-- A row of numbers is on one line. -/
private theorem Text.newline_not_mem_ofInt64s (xs : List Int64) : (10 : UInt8) ∉ ofInt64s xs := by
  intro hmem
  have hall : ∀ b ∈ ofInt64s xs, b != 10 := by
    refine forall_mem_join (List.forall_mem_singleton.mpr rfl) fun s hs b hb ↦ ?_
    obtain ⟨x, -, rfl⟩ := List.mem_map.mp hs
    rcases isDigit_or_eq_minus hb with hd | rfl
    · rw [bne_iff_ne]
      rintro rfl
      cases hd
    · rfl
  exact absurd (hall 10 hmem) (by decide)

private theorem Noun.newline_not_mem_source (a : Noun) : (10 : UInt8) ∉ a.source := by
  have hstring : (10 : UInt8) ∉ Text.ofString ")#" ∧ (10 : UInt8) ∉ Text.ofString "~0" := by decide
  unfold source
  split
  · exact Text.newline_not_mem_ofInt64s _
  · split <;> simp [Text.newline_not_mem_ofInt64s, hstring]

/-- A verb that gives a result has a mark. -/
private theorem Verb.mem_marks_of_apply {limit : Int64} {left : Option Noun} {mark : UInt8}
    {right a : Noun} (h : Verb.apply limit left mark right = .ok a) : mark ∈ marks := by
  cases left with
  | none =>
    refine mem_marks_of_monadic? (Option.ne_none_iff_isSome.mp fun hm ↦ ?_)
    rw [Verb.apply, hm] at h
    cases h
  | some left =>
    refine mem_marks_of_dyadic? (Option.ne_none_iff_isSome.mp fun hm ↦ ?_)
    rw [Verb.apply, hm] at h
    cases h

namespace Application

/-- What the line of an application says after its indentation. -/
def statement (x : Application) : Text :=
  (match x.left with
    | some a => argument a ++ [32]
    | none => [])
    ++ Text.ofByte x.mark ++ 32 :: argument x.right ++ Text.ofString " = " ++ argument x.result

private theorem traceLine_eq (x : Application) :
    x.traceLine = 9 :: (Text.times x.depth (Text.ofString "| ") ++ x.statement ++ [10]) := by
  unfold traceLine statement
  cases x.left <;> simp [Text.line, Text.newline, indentation]

private theorem newline_not_mem_argument (a : Noun) : (10 : UInt8) ∉ argument a := by
  have hshort : (10 : UInt8) ∉ shortened a.source := by
    have hdots : (10 : UInt8) ∉ Text.ofString "..." := by decide
    unfold shortened
    split
    · intro hmem
      rcases List.mem_append.mp hmem with hmem | hmem
      · exact a.newline_not_mem_source (List.mem_of_mem_take hmem)
      · exact hdots hmem
    · exact a.newline_not_mem_source
  unfold argument
  split
  · simp [Expr.parenthesized, hshort]
  · exact hshort

private theorem newline_not_mem_statement (x : Application) (h : x.mark ∈ Verb.marks) :
    (10 : UInt8) ∉ x.statement := by
  have hmark : (10 : UInt8) ≠ x.mark := by
    rintro hx
    rw [← hx] at h
    revert h
    decide
  have hequals : (10 : UInt8) ∉ Text.ofString " = " := by decide
  rw [statement, Verb.ofByte_of_mem_marks h]
  cases x.left with
  | none => simp [hmark, hequals, newline_not_mem_argument]
  | some a => simp [hmark, hequals, newline_not_mem_argument]

/-- The application of a verb at a depth, if the depth is within the limit and the verb has a
result. -/
def ofVerb? (limits : Limits) (depth : Nat) (left : Option Noun) (mark : UInt8)
    (right : Noun) : Option Application :=
  if depth ≤ limits.depth.toInt then
    (Verb.apply limits.elements left mark right).toOption.map (⟨depth, left, mark, right, ·⟩)
  else none

private theorem ofVerb?_eq_some {limits : Limits} {depth : Nat} {left : Option Noun} {mark : UInt8}
    {right : Noun} {x : Application} (h : ofVerb? limits depth left mark right = some x) :
    x.depth = depth ∧ Verb.apply limits.elements x.left x.mark x.right = .ok x.result := by
  unfold ofVerb? at h
  split at h
  · cases hv : Verb.apply limits.elements left mark right with
    | error e => rw [hv] at h; cases h
    | ok a =>
      rw [hv] at h
      cases h
      exact ⟨rfl, hv⟩
  · cases h

end Application

namespace Expr

/-! ### Visits -/

/-- The verbs of an expression whose outermost verb is at a depth: those of the right operand, those
of the left operand, the verb itself. Each is given as the part of the expression that it is the
outermost verb of, with its depth. -/
def verbs (depth : Nat) : Expr → List (Nat × Expr)
  | .noun _ => []
  | .monad mark right => right.verbs (depth + 1) ++ [(depth, .monad mark right)]
  | .dyad left mark right =>
    right.verbs (depth + 1) ++ (left.verbs (depth + 1) ++ [(depth, .dyad left mark right)])

/-- The number of verbs of an expression. -/
def verbCount : Expr → Nat
  | .noun _ => 0
  | .monad _ right => right.verbCount + 1
  | .dyad left _ right => left.verbCount + right.verbCount + 1

/-- The application of the outermost verb of an expression, if its operands have values and the verb
can be applied to them. -/
def application? (limits : Limits) (depth : Nat) : Expr → Option Application
  | .noun _ => none
  | .monad mark right => do
    let b ← (right.value limits.elements).toOption
    Application.ofVerb? limits depth none mark b
  | .dyad left mark right => do
    let b ← (right.value limits.elements).toOption
    let a ← (left.value limits.elements).toOption
    Application.ofVerb? limits depth (some a) mark b

/-- The applications of verbs that are visited one after the other, up to the first that cannot be
applied. -/
def performed (limits : Limits) (visits : List (Nat × Expr)) : List Application :=
  (visits.takeWhile fun v ↦ (v.2.application? limits v.1).isSome).filterMap fun v ↦
    v.2.application? limits v.1

variable {limits : Limits} {visits : List (Nat × Expr)}

private theorem length_verbs (e : Expr) (depth : Nat) : (e.verbs depth).length = e.verbCount := by
  induction e generalizing depth with
  | noun a => rfl
  | monad mark right ih => simp [verbs, verbCount, ih]
  | dyad left mark right ihl ihr =>
    simp only [verbs, verbCount, List.length_append, List.length_singleton, ihl, ihr]
    omega

/-- No verb of an expression is above its outermost verb. -/
private theorem le_of_mem_verbs {e : Expr} {depth : Nat} : ∀ v ∈ e.verbs depth, depth ≤ v.1 := by
  induction e generalizing depth with
  | noun a => nofun
  | monad mark right ih =>
    rw [verbs, List.forall_mem_append]
    refine ⟨fun v hv ↦ ?_, by simp⟩
    exact Nat.le_of_succ_le (ih v hv)
  | dyad left mark right ihl ihr =>
    rw [verbs, List.forall_mem_append, List.forall_mem_append]
    refine ⟨fun v hv ↦ ?_, fun v hv ↦ ?_, by simp⟩
    · exact Nat.le_of_succ_le (ihr v hv)
    · exact Nat.le_of_succ_le (ihl v hv)

private theorem application?_of_deep {depth : Nat} (h : limits.depth.toInt < depth) (e : Expr) :
    e.application? limits depth = none := by
  have hverb (left : Option Noun) (mark : UInt8) (right : Noun) :
      Application.ofVerb? limits depth left mark right = none := if_neg (by omega)
  cases e with
  | noun a => rfl
  | monad mark right => simp [application?, hverb]
  | dyad left mark right => simp [application?, hverb]

private theorem performed_cons_of_some {v : Nat × Expr} {x : Application}
    (h : v.2.application? limits v.1 = some x) :
    performed limits (v :: visits) = x :: performed limits visits := by
  simp [performed, h]

private theorem performed_cons_of_none {v : Nat × Expr} (h : v.2.application? limits v.1 = none) :
    performed limits (v :: visits) = [] := by
  simp [performed, h]

/-- Visits that can all be applied are followed by those after them. -/
private theorem performed_append_of_forall (h : ∀ v ∈ visits, (v.2.application? limits v.1).isSome)
    (next : List (Nat × Expr)) :
    performed limits (visits ++ next) = performed limits visits ++ performed limits next := by
  induction visits with
  | nil => rfl
  | cons v visits ih =>
    obtain ⟨hfirst, hrest⟩ := List.forall_mem_cons.mp h
    obtain ⟨x, hx⟩ := Option.isSome_iff_exists.mp hfirst
    rw [List.cons_append, performed_cons_of_some hx, performed_cons_of_some hx, ih hrest,
      List.cons_append]

/-- Nothing follows visits of which one cannot be applied. -/
private theorem performed_append_of_not_forall
    (h : ¬ ∀ v ∈ visits, (v.2.application? limits v.1).isSome) (next : List (Nat × Expr)) :
    performed limits (visits ++ next) = performed limits visits := by
  induction visits with
  | nil => exact absurd nofun h
  | cons v visits ih =>
    rw [List.cons_append]
    cases hx : v.2.application? limits v.1 with
    | none => rw [performed_cons_of_none hx, performed_cons_of_none hx]
    | some x =>
      rw [performed_cons_of_some hx, performed_cons_of_some hx, ih]
      intro hrest
      exact h (List.forall_mem_cons.mpr ⟨by rw [hx]; rfl, hrest⟩)

/-- All visits can be applied exactly if there are as many applications. -/
private theorem length_performed_eq_iff : (performed limits visits).length = visits.length ↔
    ∀ v ∈ visits, (v.2.application? limits v.1).isSome := by
  induction visits with
  | nil => simp [performed]
  | cons v visits ih =>
    rw [List.forall_mem_cons, ← ih]
    cases hx : v.2.application? limits v.1 with
    | none => simp [performed_cons_of_none hx]
    | some x => simp [performed_cons_of_some hx]

end Expr

/-! ### Evaluations -/

namespace Context

open Ravel.Expr

/-- A part of an evaluation from a context adds to the history what its visits come to, and it has a
result exactly if all of them can be applied. -/
structure Logs (c : Context) (visits : List (Nat × Expr))
    (last : Except (Halt EvalError) Noun × Context) : Prop where
  context : last.2 = { c with history := (performed c.limits visits).reverse ++ c.history }
  result : (∃ a, last.1 = .ok a) ↔ ∀ v ∈ visits, (v.2.application? c.limits v.1).isSome

variable {c : Context} {visits next : List (Nat × Expr)}
  {first : Except (Halt EvalError) Noun × Context}

/-- Goes on with the result of a part, unless it is an error. -/
def andThen (first : Except (Halt EvalError) Noun × Context)
    (more : Noun → Context → Except (Halt EvalError) Noun × Context) :
    Except (Halt EvalError) Noun × Context :=
  match first with
  | (.error e, c) => (.error e, c)
  | (.ok a, c) => more a c

/-- What goes on with the result of a part adds its own visits, unless there is none. -/
private theorem Logs.andThen {more : Noun → Context → Except (Halt EvalError) Noun × Context}
    (h : Logs c visits first)
    (hm : ∀ a, first.1 = .ok a → Logs first.2 next (more a first.2)) :
    Logs c (visits ++ next) (andThen first more) := by
  obtain ⟨result, d⟩ := first
  obtain ⟨hc, hr⟩ := h
  dsimp only at hc hr hm
  cases result with
  | error e =>
    have hnot : ¬ ∀ v ∈ visits, (v.2.application? c.limits v.1).isSome := by
      intro hall
      obtain ⟨a, ha⟩ := hr.mpr hall
      cases ha
    constructor
    · rw [performed_append_of_not_forall hnot]
      exact hc
    · rw [List.forall_mem_append]
      exact ⟨nofun, fun hall ↦ absurd hall.1 hnot⟩
  | ok a =>
    have hall := hr.mp ⟨a, rfl⟩
    subst hc
    obtain ⟨hc', hr'⟩ := hm a rfl
    constructor
    · rw [Context.andThen, hc', performed_append_of_forall hall, List.reverse_append,
        List.append_assoc]
    · rw [Context.andThen, hr', List.forall_mem_append]
      exact ⟨fun h ↦ ⟨hall, h⟩, fun h ↦ h.2⟩

/-- The application of a verb adds one visit. -/
private theorem logs_applied {e : Expr} {left : Option Noun} {mark : UInt8} {right : Noun}
    (hc : c.depth ≤ c.limits.depth.toInt)
    (he : e.application? c.limits c.depth =
      Application.ofVerb? c.limits c.depth left mark right) :
    Logs c [(c.depth, e)] (c.applied left mark right) := by
  rw [Application.ofVerb?, if_pos hc] at he
  unfold applied
  cases hv : Verb.apply c.limits.elements left mark right with
  | error x =>
    rw [hv] at he
    have hnone : e.application? c.limits c.depth = none := he
    constructor
    · rw [performed_cons_of_none hnone]
      rfl
    · simp [hnone]
  | ok a =>
    rw [hv] at he
    have hsome : e.application? c.limits c.depth = some ⟨c.depth, left, mark, right, a⟩ := he
    constructor
    · rw [performed_cons_of_some hsome]
      rfl
    · simp [hsome]

/-- A part that is run one level deeper adds its visits. At the limit of depth all of them are too
deep, and the first already stops the evaluation. -/
private theorem logs_deeper {part : Context → Except (Halt EvalError) Noun × Context}
    (hne : visits ≠ []) (hd : ∀ v ∈ visits, c.depth + 1 ≤ v.1)
    (hp : c.depth < c.limits.depth.toInt →
      Logs { c with depth := c.depth + 1 } visits (part { c with depth := c.depth + 1 })) :
    Logs c visits (deeper c part) := by
  by_cases hc : c.depth < c.limits.depth.toInt
  · obtain ⟨hcontext, hresult⟩ := hp hc
    rw [deeper_of_lt hc]
    constructor
    · rw [hcontext]
      rfl
    · exact hresult
  · obtain ⟨v, rest, rfl⟩ := List.exists_cons_of_ne_nil hne
    have hv := hd v List.mem_cons_self
    have hnone : v.2.application? c.limits v.1 = none := application?_of_deep (by omega) v.2
    rw [deeper, enter_eq_error (by omega)]
    constructor
    · rw [performed_cons_of_none hnone]
      rfl
    · simp [hnone]

end Context

namespace Expr

open Context

/-- Every evaluation adds to the history what the visits of the expression come to. -/
private theorem logs_eval (e : Expr) (c : Context) : Logs c (e.verbs (c.depth + 1)) (e.eval c) := by
  induction e generalizing c with
  | noun a => exact ⟨rfl, by simp [eval, verbs]⟩
  | monad mark right ih =>
    refine logs_deeper (by simp [verbs]) le_of_mem_verbs fun hd ↦ ?_
    have hr := ih { c with depth := c.depth + 1 }
    refine hr.andThen fun b hb ↦ ?_
    obtain ⟨hvalue, -⟩ := value_of_eval (Prod.ext hb rfl)
    rw [hr.context, applyMonadic_eq]
    refine logs_applied (c := { c with depth := c.depth + 1, history := _ }) hd ?_
    simp [application?, hvalue, Except.toOption]
  | dyad left mark right ihl ihr =>
    refine logs_deeper (by simp [verbs]) le_of_mem_verbs fun hd ↦ ?_
    have hr := ihr { c with depth := c.depth + 1 }
    refine hr.andThen fun b hb ↦ ?_
    obtain ⟨hvalue, -⟩ := value_of_eval (Prod.ext hb rfl)
    rw [hr.context]
    refine (ihl _).andThen fun a ha ↦ ?_
    obtain ⟨hvalue', -⟩ := value_of_eval (Prod.ext ha rfl)
    rw [(ihl _).context, applyDyadic_eq]
    refine logs_applied (c := { c with depth := c.depth + 1, history := _ }) hd ?_
    simp [application?, hvalue, hvalue', Except.toOption]

/-- The application of a visit is of its depth, and the verb has given the result. -/
private theorem application?_eq_some {limits : Limits} {depth : Nat} {e : Expr} {x : Application}
    (h : e.application? limits depth = some x) :
    x.depth = depth ∧ Verb.apply limits.elements x.left x.mark x.right = .ok x.result := by
  cases e with
  | noun a => cases h
  | monad mark right =>
    obtain ⟨b, -, hx⟩ := Option.bind_eq_some_iff.mp h
    exact Application.ofVerb?_eq_some hx
  | dyad left mark right =>
    obtain ⟨b, -, h⟩ := Option.bind_eq_some_iff.mp h
    obtain ⟨a, -, hx⟩ := Option.bind_eq_some_iff.mp h
    exact Application.ofVerb?_eq_some hx

/-- The applications are those of the first visits, one of each, at the depths of these visits. -/
private theorem map_depth_performed (limits : Limits) (visits : List (Nat × Expr)) :
    (performed limits visits).map Application.depth =
      (visits.take (performed limits visits).length).map Prod.fst := by
  induction visits with
  | nil => rfl
  | cons v visits ih =>
    cases hx : v.2.application? limits v.1 with
    | none => rw [performed_cons_of_none hx]; rfl
    | some x =>
      rw [performed_cons_of_some hx, List.map_cons, List.length_cons, List.take_succ_cons,
        List.map_cons, ih, (application?_eq_some hx).1]

private theorem mem_marks_of_mem_performed {limits : Limits} {visits : List (Nat × Expr)}
    {x : Application} (h : x ∈ performed limits visits) : x.mark ∈ Verb.marks := by
  obtain ⟨v, -, hv⟩ := List.mem_filterMap.mp h
  exact Verb.mem_marks_of_apply (application?_eq_some hv).2

end Expr

/-! ### Runs -/

/-- A source that is read is evaluated from the start of a run. -/
private theorem Settings.Reads.evaluation? {s : Settings} {source : Text} {e : Expr}
    (h : s.Reads source e) :
    s.limits.evaluation? source = some (e.eval (Context.start s.limits)) := by
  obtain ⟨tokens, tree, hs, hp, hr⟩ := reads_iff_stages.mp h
  have htree : s.limits.tree? source = some tree := by
    rw [Limits.tree?, hs]
    exact congrArg Except.toOption hp
  have hresolve : tree.resolve (Context.start s.limits) = (.ok e, Context.start s.limits) :=
    Prod.ext hr (Tree.resolve_snd s.start_le_depth tree)
  simp only [Limits.evaluation?, htree, hresolve]

/-- The trace of an evaluation has a line for each verb that it applied with a result, in the order
of the visits and indented as deep as the verb stands. -/
theorem Expr.trace_eval (e : Expr) (c : Context) :
    let visits := e.verbs (c.depth + 1)
    let past := performed c.limits visits
    (e.eval c).2.trace = c.trace ++ past.flatMap Application.traceLine ∧
    past.map Application.depth = (visits.take past.length).map Prod.fst ∧
    (∀ x ∈ past, 10 ∉ x.statement ∧
      x.traceLine = 9 :: (Text.times x.depth (Text.ofString "| ") ++ x.statement ++ [10])) ∧
    ((∃ a, (e.eval c).1 = .ok a) ↔ past.length = e.verbCount) ∧
    ∀ (s : Settings) (source report : Text), s.Reads source e → s.debug .trace →
      Emission.errText report (s.run source).emissions =
        (performed s.limits (e.verbs 1)).flatMap Application.traceLine ++
          if s.debug .cpu then report else [] := by
  have htrace (c : Context) : (e.eval c).2.trace =
      c.trace ++ (performed c.limits (e.verbs (c.depth + 1))).flatMap Application.traceLine := by
    rw [(e.logs_eval c).context, Context.trace, Context.trace, List.reverse_append,
      List.reverse_reverse, List.flatMap_append]
  refine ⟨htrace c, map_depth_performed _ _, fun x hx ↦ ?_, ?_, ?_⟩
  · exact ⟨x.newline_not_mem_statement (mem_marks_of_mem_performed hx), x.traceLine_eq⟩
  · rw [(e.logs_eval c).result, ← length_performed_eq_iff, length_verbs]
  · intro s source report hs htr
    rw [s.errText_run, Settings.seen, if_pos htr, DebugFlag.view, hs.evaluation?]
    exact congrArg (· ++ _) (htrace (Context.start s.limits))

/-- In `(~0 1){~2` the iota of two is applied and that of two numbers is not, so that one line of
three is written; the verb is two deep. -/
theorem Expr.trace_eval_failure :
    Emission.errText [] (({ debug := fun flag ↦ flag = .trace } : Settings).run
      (Text.ofString "(~0 1)\x7b~2")).emissions = Text.ofString "\t| | ~ 2 = 0 1\n" := by
  have hreads : ({ debug := fun flag ↦ flag = .trace } : Settings).Reads
      (Text.ofString "(~0 1)\x7b~2")
      (.dyad (.monad 126 (.noun (.vector #[0, 1]))) 123 (.monad 126 (.noun (.scalar 2)))) :=
    ⟨rfl, _, rfl, rfl⟩
  have hrun := (trace_eval _ (Context.start ⟨1, 1⟩)).2.2.2.2 _ _ [] hreads rfl
  rw [hrun]
  decide +kernel

end Ravel
