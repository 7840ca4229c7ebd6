import Ravel.Proofs.Value

/-!
# The depth of a context

Resolving a tree and evaluating an expression go down a level for each verb and each parenthesis,
and on every way out they come back. Both use a context through a few operations only
(`Context.Operations`). A pass is such a run with operations that note every context they lead to
(`Operations.logged`); with the operations on contexts themselves it is the run as it is
(`Tree.resolveWith_plain`, `Expr.evalWith_plain`). A run is carried along by any map that respects
the operations (`Tree.resolveWith_hom`, `Expr.evalWith_hom`), so a pass ends as its run does
(`Tree.outcome_pass`, `Expr.outcome_pass`). Passes keep balanced (`Pass.Balanced`), and so a context
can be used again after any failure (`depth_balanced`).
-/

namespace Ravel

namespace Context

/-- One change of a context. Only a level that was entered can be left. -/
inductive Moves (c : Context) : Context → Prop where
  | enter {d : Context} (h : c.enter = .ok d) : Moves c d
  | leave (h : 0 < c.depth) : Moves c c.leave
  | record (left : Option Noun) (mark : UInt8) (right result : Noun) :
      Moves c (c.record left mark right result)

/-- Contexts that are reached one after the other by single changes, up to the last. -/
inductive Path : Context → List Context → Context → Prop where
  | nil (c : Context) : Path c [] c
  | cons {c d e : Context} {ms : List Context} (h : c.Moves d) (hp : Path d ms e) :
      Path c (d :: ms) e

private theorem Path.append {c d e : Context} {ms ns : List Context} (hm : Path c ms d)
    (hn : Path d ns e) : Path c (ms ++ ns) e := by
  induction hm with
  | nil c => exact hn
  | cons h hp ih => exact .cons h (ih hn)

private theorem of_enter_eq_ok {c d : Context} (h : c.enter = .ok d) :
    c.depth < c.limits.depth.toInt ∧ d = { c with depth := c.depth + 1 } := by
  by_cases hlt : c.depth < c.limits.depth.toInt
  · rw [enter_eq_ok hlt] at h
    cases h
    exact ⟨hlt, rfl⟩
  · rw [enter_eq_error (by omega)] at h
    cases h

/-- A context without its history. -/
def fresh (c : Context) : Context := ⟨c.limits, c.depth, []⟩

private theorem fresh_eq_fresh {c d : Context} (hl : c.limits = d.limits) (hd : c.depth = d.depth) :
    c.fresh = d.fresh := by
  rw [fresh, fresh, hl, hd]

/-- A run that comes out without a history as another one does gives the same with and without a
history. -/
private theorem result_fresh {ε α : Type} {run bare : Context → Except ε α × Context}
    (h : ∀ c : Context, bare c.fresh = Prod.map id fresh (run c)) (c : Context) :
    (run c.fresh).1 = (run c).1 := by
  have hfresh : Prod.map id fresh (run c.fresh) = Prod.map id fresh (run c) :=
    (h c.fresh).symm.trans (h c)
  exact (Prod.mk.inj hfresh).1

/-! ### Operations on contexts -/

/-- The operations through which a run uses a context, on states that stand for contexts. -/
structure Operations (σ : Type) where
  enter : σ → Except ValueError σ
  leave : σ → σ
  elements : σ → Int64
  record : σ → (left : Option Noun) → (mark : UInt8) → (right result : Noun) → σ

namespace Operations

variable {σ τ ε α β : Type}

/-- The operations on contexts themselves. -/
def plain : Operations Context where
  enter := Context.enter
  leave := Context.leave
  elements c := c.limits.elements
  record := Context.record

/-- The operations on contexts without a history. -/
def unrecorded : Operations Context where
  enter := Context.enter
  leave := Context.leave
  elements c := c.limits.elements
  record c _ _ _ _ := c

/-- The operations that note every context they lead to. -/
def logged : Operations (Context × List Context) where
  enter s := s.1.enter.map fun c ↦ (c, s.2 ++ [c])
  leave s := (s.1.leave, s.2 ++ [s.1.leave])
  elements s := s.1.limits.elements
  record s left mark right result :=
    let c := s.1.record left mark right result
    (c, s.2 ++ [c])

/-- Runs a part one level deeper. -/
def deeper (ops : Operations σ) (fail : ValueError → ε) (s : σ) (part : σ → Except ε α × σ) :
    Except ε α × σ :=
  match ops.enter s with
  | .error e => (.error (fail e), s)
  | .ok s => ((part s).1, ops.leave (part s).2)

/-- Goes on with the result of a run, unless it is an error. -/
def andThen (r : Except ε α × σ) (next : α → σ → Except ε β × σ) : Except ε β × σ :=
  match r with
  | (.error e, s) => (.error e, s)
  | (.ok a, s) => next a s

/-- Applies a verb and records the application if it gives a result. -/
def applied (ops : Operations σ) (s : σ) (left : Option Noun) (mark : UInt8) (right : Noun) :
    Except (Halt EvalError) Noun × σ :=
  match Verb.apply (ops.elements s) left mark right with
  | .ok result => (.ok result, ops.record s left mark right result)
  | .error e => (.error e, s)

/-- A map of states respects the operations on them. -/
structure Hom (f : σ → τ) (ops : Operations σ) (ops' : Operations τ) : Prop where
  enter (s : σ) : ops'.enter (f s) = (ops.enter s).map f
  leave (s : σ) : ops'.leave (f s) = f (ops.leave s)
  elements (s : σ) : ops'.elements (f s) = ops.elements s
  record (s : σ) (left : Option Noun) (mark : UInt8) (right result : Noun) :
    ops'.record (f s) left mark right result = f (ops.record s left mark right result)

private theorem hom_logged : Hom Prod.fst logged plain where
  enter s := by
    change s.1.enter = (s.1.enter.map fun c ↦ (c, s.2 ++ [c])).map Prod.fst
    cases s.1.enter <;> rfl
  leave s := rfl
  elements s := rfl
  record s left mark right result := rfl

private theorem hom_fresh : Hom fresh plain unrecorded where
  enter c := by
    change c.fresh.enter = c.enter.map fresh
    by_cases h : c.depth < c.limits.depth.toInt
    · have hfresh : c.fresh.depth < c.fresh.limits.depth.toInt := h
      rw [enter_eq_ok h, enter_eq_ok hfresh]
      rfl
    · have hfresh : c.fresh.limits.depth.toInt ≤ c.fresh.depth := Int.not_lt.mp h
      rw [enter_eq_error (Int.not_lt.mp h), enter_eq_error hfresh]
      rfl
  leave c := rfl
  elements c := rfl
  record c left mark right result := rfl

variable {f : σ → τ} {ops : Operations σ} {ops' : Operations τ}

private theorem Hom.deeper (h : Hom f ops ops') {fail : ValueError → ε} {part : σ → Except ε α × σ}
    {part' : τ → Except ε α × τ} (hp : ∀ s, part' (f s) = Prod.map id f (part s)) (s : σ) :
    ops'.deeper fail (f s) part' = Prod.map id f (ops.deeper fail s part) := by
  unfold Operations.deeper
  rw [h.enter]
  cases ops.enter s with
  | error e => rfl
  | ok d =>
    dsimp only [Except.map]
    rw [hp, Prod.map_fst, Prod.map_snd, h.leave]
    rfl

private theorem andThen_map {r : Except ε α × σ} {next : α → σ → Except ε β × σ}
    {next' : α → τ → Except ε β × τ} (hn : ∀ a s, next' a (f s) = Prod.map id f (next a s)) :
    andThen (Prod.map id f r) next' = Prod.map id f (andThen r next) := by
  obtain ⟨_ | a, s⟩ := r
  · rfl
  · exact hn a s

private theorem Hom.applied (h : Hom f ops ops') (s : σ) (left : Option Noun) (mark : UInt8)
    (right : Noun) :
    ops'.applied (f s) left mark right = Prod.map id f (ops.applied s left mark right) := by
  unfold Operations.applied
  rw [h.elements]
  cases Verb.apply (ops.elements s) left mark right with
  | error e => rfl
  | ok result =>
    dsimp only
    rw [h.record]
    rfl

end Operations

end Context

open Context

/-! ### Runs over any operations -/

namespace Tree

variable {σ τ : Type}

/-- Resolves a tree by way of some operations. -/
def resolveWith (ops : Operations σ) : Tree → σ → Except ResolveError Expr × σ
  | .literal value _, s => (.ok (.noun value), s)
  | .paren inner _, s => ops.deeper .depth s (inner.resolveWith ops)
  | .monad mark right offset, s =>
    ops.deeper .depth s fun s ↦
      Operations.andThen (right.resolveWith ops s) fun right s ↦
        if (Verb.monadic? mark).isSome then (.ok (.monad mark right), s)
        else (.error (.form ⟨.noMonadicForm, mark, offset⟩), s)
  | .dyad left mark right offset, s =>
    ops.deeper .depth s fun s ↦
      Operations.andThen (right.resolveWith ops s) fun right s ↦
        Operations.andThen (left.resolveWith ops s) fun left s ↦
          if (Verb.dyadic? mark).isSome then (.ok (.dyad left mark right), s)
          else (.error (.form ⟨.noDyadicForm, mark, offset⟩), s)
  | .hole, s => (.error .hole, s)

/-- A map that respects the operations carries the resolving of a tree along. -/
theorem resolveWith_hom {f : σ → τ} {ops : Operations σ} {ops' : Operations τ}
    (h : Operations.Hom f ops ops') (t : Tree) (s : σ) :
    t.resolveWith ops' (f s) = Prod.map id f (t.resolveWith ops s) := by
  induction t generalizing s with
  | literal value offset => rfl
  | hole => rfl
  | paren inner offset ih => exact h.deeper ih s
  | monad mark right offset ih =>
    refine h.deeper (fun s ↦ ?_) s
    rw [ih]
    refine Operations.andThen_map fun r s ↦ ?_
    split <;> rfl
  | dyad left mark right offset ihl ihr =>
    refine h.deeper (fun s ↦ ?_) s
    rw [ihr]
    refine Operations.andThen_map fun r s ↦ ?_
    rw [ihl]
    refine Operations.andThen_map fun l s ↦ ?_
    split <;> rfl

private theorem deeper_plain {α : Type} {part part' : Context → Except ResolveError α × Context}
    (h : ∀ c, part c = part' c) (c : Context) :
    Operations.plain.deeper .depth c part = deeper c part' := by
  obtain rfl := funext h
  simp only [Operations.deeper, deeper, Operations.plain]
  cases c.enter <;> rfl

/-- By way of the operations on contexts a tree is resolved as it is. -/
theorem resolveWith_plain (t : Tree) (c : Context) :
    t.resolveWith .plain c = t.resolve c := by
  induction t generalizing c with
  | literal value offset => rfl
  | hole => rfl
  | paren inner offset ih => exact deeper_plain ih c
  | monad mark right offset ih =>
    refine deeper_plain (fun c ↦ ?_) c
    rw [ih]
    rcases right.resolve c with ⟨_ | r, c⟩ <;> rfl
  | dyad left mark right offset ihl ihr =>
    refine deeper_plain (fun c ↦ ?_) c
    rw [ihr]
    rcases right.resolve c with ⟨_ | r, c⟩
    · rfl
    · simp only [Operations.andThen, ihl]
      rcases left.resolve c with ⟨_ | l, c⟩ <;> rfl

private theorem resolve_fresh (t : Tree) (c : Context) :
    (t.resolve c.fresh).1 = (t.resolve c).1 := by
  have h (c : Context) :
      t.resolveWith .unrecorded c.fresh = Prod.map id fresh (t.resolve c) := by
    rw [← resolveWith_plain]
    exact t.resolveWith_hom Operations.hom_fresh c
  exact result_fresh h c

end Tree

namespace Expr

variable {σ τ : Type}

/-- Evaluates an expression by way of some operations. -/
def evalWith (ops : Operations σ) : Expr → σ → Except (Halt EvalError) Noun × σ
  | .noun a, s => (.ok a, s)
  | .monad mark right, s =>
    ops.deeper (.error ∘ .value) s fun s ↦
      Operations.andThen (right.evalWith ops s) fun right s ↦ ops.applied s none mark right
  | .dyad left mark right, s =>
    ops.deeper (.error ∘ .value) s fun s ↦
      Operations.andThen (right.evalWith ops s) fun right s ↦
        Operations.andThen (left.evalWith ops s) fun left s ↦ ops.applied s (some left) mark right

/-- A map that respects the operations carries the evaluation of an expression along. -/
theorem evalWith_hom {f : σ → τ} {ops : Operations σ} {ops' : Operations τ}
    (h : Operations.Hom f ops ops') (e : Expr) (s : σ) :
    e.evalWith ops' (f s) = Prod.map id f (e.evalWith ops s) := by
  induction e generalizing s with
  | noun a => rfl
  | monad mark right ih =>
    refine h.deeper (fun s ↦ ?_) s
    rw [ih]
    exact Operations.andThen_map fun r s ↦ h.applied s none mark r
  | dyad left mark right ihl ihr =>
    refine h.deeper (fun s ↦ ?_) s
    rw [ihr]
    refine Operations.andThen_map fun r s ↦ ?_
    rw [ihl]
    exact Operations.andThen_map fun l s ↦ h.applied s (some l) mark r

private theorem deeper_plain {part part' : Context → Except (Halt EvalError) Noun × Context}
    (h : ∀ c, part c = part' c) (c : Context) :
    Operations.plain.deeper (.error ∘ .value) c part = deeper c part' := by
  obtain rfl := funext h
  simp only [Operations.deeper, deeper, Operations.plain]
  cases c.enter <;> rfl

/-- By way of the operations on contexts an expression is evaluated as it is. -/
theorem evalWith_plain (e : Expr) (c : Context) : e.evalWith .plain c = e.eval c := by
  induction e generalizing c with
  | noun a => rfl
  | monad mark right ih =>
    refine deeper_plain (fun c ↦ ?_) c
    rw [ih]
    rcases right.eval c with ⟨_ | r, c⟩
    · rfl
    · exact (applyMonadic_eq c mark r).symm
  | dyad left mark right ihl ihr =>
    refine deeper_plain (fun c ↦ ?_) c
    rw [ihr]
    rcases right.eval c with ⟨_ | r, c⟩
    · rfl
    · simp only [Operations.andThen, ihl]
      rcases left.eval c with ⟨_ | l, c⟩
      · rfl
      · exact (applyDyadic_eq c l mark r).symm

private theorem eval_fresh (e : Expr) (c : Context) :
    (e.eval c.fresh).1 = (e.eval c).1 := by
  have h (c : Context) : e.evalWith .unrecorded c.fresh = Prod.map id fresh (e.eval c) := by
    rw [← evalWith_plain]
    exact e.evalWith_hom Operations.hom_fresh c
  exact result_fresh h c

end Expr

/-! ### Passes -/

/-- A run from a context: its result, the context afterwards, and every context that it comes to, in
their order. -/
structure Pass (ε α : Type) where
  result : Except ε α
  context : Context
  moments : List Context

/-- The pass of resolving a tree. -/
def Tree.pass (t : Tree) (c : Context) : Pass ResolveError Expr :=
  let (result, context, moments) := t.resolveWith .logged (c, [])
  ⟨result, context, moments⟩

/-- The pass of evaluating an expression. -/
def Expr.pass (e : Expr) (c : Context) : Pass (Halt EvalError) Noun :=
  let (result, context, moments) := e.evalWith .logged (c, [])
  ⟨result, context, moments⟩

namespace Pass

variable {ε α β : Type}

/-- What is left of a run in the end. -/
def outcome (p : Pass ε α) : Except ε α × Context := (p.result, p.context)

/-- A pass from a context comes back to its depth, and never leaves the levels between that depth
and the limit. -/
structure Balanced (c : Context) (p : Pass ε α) : Prop where
  path : Path c p.moments p.context
  limits : p.context.limits = c.limits
  depth : p.context.depth = c.depth
  bounded : ∀ m ∈ p.moments, c.depth ≤ m.depth ∧ m.depth ≤ c.limits.depth.toInt

variable {c : Context} {ms : List Context}

/-- A run that starts with a log adds a balanced pass to it. -/
def Adds (c : Context) (ms : List Context) (r : Except ε α × Context × List Context) : Prop :=
  ∃ ns, r.2.2 = ms ++ ns ∧ Balanced c ⟨r.1, r.2.1, ns⟩

private theorem Adds.balanced {r : Except ε α × Context × List Context} (h : Adds c [] r) :
    Balanced c ⟨r.1, r.2.1, r.2.2⟩ := by
  obtain ⟨ns, hns, hb⟩ := h
  rw [hns]
  exact hb

private theorem adds_still (result : Except ε α) (c : Context) (ms : List Context) :
    Adds c ms (result, c, ms) :=
  ⟨[], (List.append_nil ms).symm, .nil c, rfl, rfl, nofun⟩

/-- Going one level deeper is undone whatever happens there. -/
private theorem Balanced.deeper {d : Context} {p : Pass ε α} (hd : c.enter = .ok d)
    (hp : Balanced d p) :
    Balanced c ⟨p.result, p.context.leave, d :: (p.moments ++ [p.context.leave])⟩ := by
  obtain ⟨hlt, rfl⟩ := of_enter_eq_ok hd
  have hlimits := hp.limits
  have hdepth := hp.depth
  dsimp only at hlimits hdepth
  have hleave : p.context.leave.depth = c.depth := by
    simp [leave, hdepth]
  constructor
  · exact .cons (.enter hd) (hp.path.append (.cons (.leave (by omega)) (.nil _)))
  · exact hlimits
  · exact hleave
  · -- the first moment is the new level and the last the way back; the part has the others
    intro m hm
    simp only [List.mem_cons, List.mem_append, List.not_mem_nil, or_false] at hm
    rcases hm with rfl | hm | rfl
    · dsimp only
      omega
    · have hb := hp.bounded m hm
      dsimp only at hb
      omega
    · omega

private theorem Adds.deeper {fail : ValueError → ε}
    {part : Context × List Context → Except ε α × Context × List Context}
    (h : ∀ (d : Context) (ms : List Context), d.depth ≤ d.limits.depth.toInt →
      Adds d ms (part (d, ms))) :
    Adds c ms (Operations.logged.deeper fail (c, ms) part) := by
  unfold Operations.deeper
  simp only [Operations.logged]
  cases hd : c.enter with
  | error e => exact adds_still _ c ms
  | ok d =>
    obtain ⟨ns, hns, hb⟩ := h d (ms ++ [d]) (by
      obtain ⟨hlt, rfl⟩ := of_enter_eq_ok hd
      exact hlt)
    refine ⟨d :: (ns ++ [(part (d, ms ++ [d])).2.1.leave]), ?_, Balanced.deeper hd hb⟩
    simp only [Except.map]
    rw [hns, List.append_assoc, List.append_assoc]
    rfl

/-- What follows a balanced pass starts from the same depth. -/
private theorem Adds.andThen {r : Except ε α × Context × List Context}
    {next : α → Context × List Context → Except ε β × Context × List Context} (hr : Adds c ms r)
    (hn : ∀ a (d : Context) ms, d.limits = c.limits → d.depth = c.depth →
      Adds d ms (next a (d, ms))) : Adds c ms (Operations.andThen r next) := by
  obtain ⟨result, d, log⟩ := r
  obtain ⟨ns, rfl, hb⟩ := hr
  cases result with
  | error e => exact ⟨ns, rfl, hb.path, hb.limits, hb.depth, hb.bounded⟩
  | ok a =>
    obtain ⟨ns', hns, hb'⟩ := hn a d (ms ++ ns) hb.limits hb.depth
    rw [List.append_assoc] at hns
    refine ⟨ns ++ ns', hns, ?_⟩
    constructor
    · exact hb.path.append hb'.path
    · exact hb'.limits.trans hb.limits
    · exact hb'.depth.trans hb.depth
    · intro m hm
      rcases List.mem_append.mp hm with hm | hm
      · exact hb.bounded m hm
      · have hbound := hb'.bounded m hm
        have hlimits := hb.limits
        have hdepth := hb.depth
        dsimp only at hlimits hdepth
        rwa [hdepth, hlimits] at hbound

private theorem adds_applied (hc : c.depth ≤ c.limits.depth.toInt) (ms : List Context)
    (left : Option Noun) (mark : UInt8) (right : Noun) :
    Adds c ms (Operations.logged.applied (c, ms) left mark right) := by
  simp only [Operations.applied, Operations.logged]
  cases Verb.apply c.limits.elements left mark right with
  | error e => exact adds_still _ c ms
  | ok result =>
    refine ⟨[c.record left mark right result], rfl, ?_⟩
    constructor
    · exact .cons (.record left mark right result) (.nil _)
    · rfl
    · rfl
    · intro m hm
      rw [List.mem_singleton.mp hm]
      exact ⟨Nat.le_refl _, hc⟩

end Pass

namespace Tree

/-- A pass ends as the run that it is of. -/
theorem outcome_pass (t : Tree) (c : Context) : (t.pass c).outcome = t.resolve c := by
  rw [← resolveWith_plain]
  exact (t.resolveWith_hom Operations.hom_logged (c, [])).symm

private theorem adds_resolveWith (t : Tree) (c : Context) (ms : List Context) :
    Pass.Adds c ms (t.resolveWith .logged (c, ms)) := by
  induction t generalizing c ms with
  | literal value offset => exact Pass.adds_still _ c ms
  | hole => exact Pass.adds_still _ c ms
  | paren inner offset ih => exact .deeper fun d ms _ ↦ ih d ms
  | monad mark right offset ih =>
    refine .deeper fun d ms _ ↦ (ih d ms).andThen fun r d ms _ _ ↦ ?_
    split <;> exact Pass.adds_still _ d ms
  | dyad left mark right offset ihl ihr =>
    refine .deeper fun d ms _ ↦ (ihr d ms).andThen fun r d ms _ _ ↦
      (ihl d ms).andThen fun l d ms _ _ ↦ ?_
    split <;> exact Pass.adds_still _ d ms

private theorem balanced_pass (t : Tree) (c : Context) : Pass.Balanced c (t.pass c) :=
  (t.adds_resolveWith c []).balanced

end Tree

namespace Expr

/-- A pass ends as the run that it is of. -/
theorem outcome_pass (e : Expr) (c : Context) : (e.pass c).outcome = e.eval c := by
  rw [← evalWith_plain]
  exact (e.evalWith_hom Operations.hom_logged (c, [])).symm

private theorem adds_evalWith (e : Expr) {c : Context} (hc : c.depth ≤ c.limits.depth.toInt)
    (ms : List Context) : Pass.Adds c ms (e.evalWith .logged (c, ms)) := by
  induction e generalizing c ms with
  | noun a => exact Pass.adds_still _ c ms
  | monad mark right ih =>
    refine .deeper fun d ms hd ↦ (ih hd ms).andThen fun r d' ms hl hd' ↦ ?_
    exact Pass.adds_applied (by rw [hl, hd']; exact hd) ms none mark r
  | dyad left mark right ihl ihr =>
    refine .deeper fun d ms hd ↦ (ihr hd ms).andThen fun r d' ms hl hd' ↦ ?_
    have hle : d'.depth ≤ d'.limits.depth.toInt := by rw [hl, hd']; exact hd
    refine (ihl hle ms).andThen fun l d'' ms hl' hd'' ↦ ?_
    exact Pass.adds_applied (by rw [hl', hd'']; exact hle) ms (some l) mark r

private theorem balanced_pass (e : Expr) {c : Context} (hc : c.depth ≤ c.limits.depth.toInt) :
    Pass.Balanced c (e.pass c) :=
  (e.adds_evalWith hc []).balanced

end Expr

/-! ### Calls one after the other -/

/-- A use of a context. -/
inductive Call where
  | resolve (t : Tree)
  | eval (e : Expr)

namespace Call

/-- What a call gives: an expression, a noun, or an error of either. -/
abbrev Answer := Except ResolveError Expr ⊕ Except (Halt EvalError) Noun

/-- The answer to a call, and the context afterwards. -/
def run (c : Context) : Call → Answer × Context
  | .resolve t => (.inl (t.resolve c).1, (t.resolve c).2)
  | .eval e => (.inr (e.eval c).1, (e.eval c).2)

/-- The answers to calls that use one context one after the other, and the context afterwards. -/
def runAll (c : Context) : List Call → List Answer × Context
  | [] => ([], c)
  | call :: calls =>
    let (answer, c) := call.run c
    let (answers, c) := runAll c calls
    (answer :: answers, c)

variable {c : Context}

/-- A call leaves the context as it was but for the history. -/
private theorem fresh_run (hc : c.depth ≤ c.limits.depth.toInt) (call : Call) :
    (call.run c).2.fresh = c.fresh := by
  cases call with
  | resolve t =>
    have hb := t.balanced_pass c
    rw [run, ← t.outcome_pass]
    exact fresh_eq_fresh hb.limits hb.depth
  | eval e =>
    have hb := e.balanced_pass hc
    rw [run, ← e.outcome_pass]
    exact fresh_eq_fresh hb.limits hb.depth

private theorem run_fresh (c : Context) (call : Call) : (call.run c.fresh).1 = (call.run c).1 := by
  cases call with
  | resolve t => exact congrArg Sum.inl (t.resolve_fresh c)
  | eval e => exact congrArg Sum.inr (e.eval_fresh c)

/-- Calls that use one context are answered as each would be in the context at the start. -/
private theorem runAll_eq (hc : c.depth ≤ c.limits.depth.toInt) (calls : List Call) :
    (runAll c calls).2.fresh = c.fresh ∧
      (runAll c calls).1 = calls.map fun call ↦ (call.run c.fresh).1 := by
  induction calls generalizing c with
  | nil => exact ⟨rfl, rfl⟩
  | cons call calls ih =>
    have hnext := fresh_run hc call
    have hc' : (call.run c).2.depth ≤ (call.run c).2.limits.depth.toInt := by
      change (call.run c).2.fresh.depth ≤ (call.run c).2.fresh.limits.depth.toInt
      rw [hnext]
      exact hc
    obtain ⟨hlast, hanswers⟩ := ih hc'
    rw [hnext] at hlast hanswers
    constructor
    · exact hlast
    · rw [List.map_cons, ← hanswers, run_fresh c call]
      rfl

end Call

/-- Resolving and evaluating come back to the depth that they start from and stay between it and the
limit, so a context answers every call as a fresh one would. -/
theorem depth_balanced {c : Context} (hc : c.depth ≤ c.limits.depth.toInt) :
    (∀ t : Tree, (t.pass c).outcome = t.resolve c ∧ (t.pass c).Balanced c) ∧
    (∀ e : Expr, (e.pass c).outcome = e.eval c ∧ (e.pass c).Balanced c) ∧
    ∀ calls, (Call.runAll c calls).2.depth = c.depth ∧
      (Call.runAll c calls).1 = calls.map fun call ↦ (call.run ⟨c.limits, c.depth, []⟩).1 := by
  refine ⟨fun t ↦ ⟨t.outcome_pass c, t.balanced_pass c⟩,
    fun e ↦ ⟨e.outcome_pass c, e.balanced_pass hc⟩, fun calls ↦ ?_⟩
  obtain ⟨hlast, hanswers⟩ := Call.runAll_eq hc calls
  have hdepth : (Call.runAll c calls).2.fresh.depth = c.fresh.depth := by rw [hlast]
  exact ⟨hdepth, hanswers⟩

/-- A tree nested too deeply and one with a hole leave the context good for `#7 8`. -/
theorem depth_balanced_after_failures :
    (Call.runAll ⟨⟨2, 100⟩, 1, []⟩ [.resolve (.paren (.paren .hole 1) 0),
      .resolve (.monad 126 .hole 0), .eval (.monad 35 (.noun (.vector #[7, 8])))]).1 =
    [.inl (.error (.depth (.tooDeep 2 none))), .inl (.error .hole),
      .inr (.ok (.scalar 2))] := by
  have hc : (1 : Int) ≤ (2 : Int64).toInt := by decide
  have hcalls := (depth_balanced (c := ⟨⟨2, 100⟩, 1, []⟩) hc).2.2
  rw [(hcalls _).2]
  rfl

end Ravel
