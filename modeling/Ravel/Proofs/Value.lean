import Ravel.Expr.Eval

/-!
# Values of expressions

The context of an evaluation only bounds the depth and keeps the history. An expression that is not
nested too deeply has therefore a value that depends on the limit of elements alone
(`Expr.eval_eq`), and a tree that is not nested too deeply is resolved by erasing its parentheses
(`Tree.resolve_eq_ok_iff`). `Expr.Applies` says which applications of verbs an evaluation comes to.
-/

namespace Ravel

/-- Putting an error in other words changes no result. -/
theorem mapError_eq_ok_iff {ε δ α : Type} {r : Except ε α} {f : ε → δ} {a : α} :
    r.mapError f = .ok a ↔ r = .ok a := by
  cases r with
  | error e => exact ⟨nofun, nofun⟩
  | ok b => exact ⟨fun h ↦ by cases h; rfl, fun h ↦ by cases h; rfl⟩

/-- What a verb makes of the noun on its right and perhaps one on its left. -/
def Verb.apply (limit : Int64) (left : Option Noun) (mark : UInt8) (right : Noun) :
    Except (Halt EvalError) Noun :=
  match left with
  | none =>
    match Verb.monadic? mark with
    | none => .error (.error (.form ⟨.noMonadicForm, mark, -1⟩))
    | some form => (form.apply limit right).mapError (Halt.map .value)
  | some left =>
    match Verb.dyadic? mark with
    | none => .error (.error (.form ⟨.noDyadicForm, mark, -1⟩))
    | some form => (form.apply limit left right).mapError (Halt.map .value)

namespace Context

/-- The end of an application: the outcome of the verb, recorded if it is a result. -/
def applied (c : Context) (left : Option Noun) (mark : UInt8) (right : Noun) :
    Except (Halt EvalError) Noun × Context :=
  match Verb.apply c.limits.elements left mark right with
  | .ok result => (.ok result, c.record left mark right result)
  | .error e => (.error e, c)

/-- What an application comes to depends on the limit of elements alone. -/
theorem applied_fst (c : Context) (left : Option Noun) (mark : UInt8) (right : Noun) :
    (c.applied left mark right).1 = Verb.apply c.limits.elements left mark right := by
  unfold applied
  cases Verb.apply c.limits.elements left mark right with
  | ok result => rfl
  | error e => rfl

/-- An application that gives a noun keeps the limits. -/
private theorem applied_eq_ok {c d : Context} {left : Option Noun} {mark : UInt8} {right a : Noun}
    (h : c.applied left mark right = (.ok a, d)) :
    Verb.apply c.limits.elements left mark right = .ok a ∧ d.limits = c.limits := by
  unfold applied at h
  cases hv : Verb.apply c.limits.elements left mark right with
  | error e => rw [hv] at h; cases h
  | ok b =>
    rw [hv] at h
    cases h
    exact ⟨rfl, rfl⟩

/-- A monadic application ends as the verb does. -/
theorem applyMonadic_eq (c : Context) (mark : UInt8) (right : Noun) :
    c.applyMonadic mark right = c.applied none mark right := by
  unfold applyMonadic applied Verb.apply
  cases Verb.monadic? mark with
  | none => rfl
  | some form =>
    dsimp only
    cases form.apply c.limits.elements right with
    | ok b => rfl
    | error x => rfl

/-- A dyadic application ends as the verb does. -/
theorem applyDyadic_eq (c : Context) (left : Noun) (mark : UInt8) (right : Noun) :
    c.applyDyadic left mark right = c.applied (some left) mark right := by
  unfold applyDyadic applied Verb.apply
  cases Verb.dyadic? mark with
  | none => rfl
  | some form =>
    dsimp only
    cases form.apply c.limits.elements left right with
    | ok b => rfl
    | error x => rfl

/-- Below the limit of depth there is one more level. -/
theorem enter_eq_ok {c : Context} (h : c.depth < c.limits.depth.toInt) :
    c.enter = .ok { c with depth := c.depth + 1 } := by
  rw [enter, if_neg (by omega)]

/-- At the limit of depth there is no further level. -/
theorem enter_eq_error {c : Context} (h : c.limits.depth.toInt ≤ c.depth) :
    c.enter = .error (.tooDeep c.limits.depth none) := by
  rw [enter, if_pos h]

end Context

namespace Expr

/-- The levels of an expression: its verbs on the longest path. -/
def nesting : Expr → Nat
  | .noun _ => 0
  | .monad _ right => right.nesting + 1
  | .dyad left _ right => max left.nesting right.nesting + 1

/-- Every verb of an expression has the form in which it is used. -/
def Formed : Expr → Prop
  | .noun _ => True
  | .monad mark right => (Verb.monadic? mark).isSome ∧ right.Formed
  | .dyad left mark right => (Verb.dyadic? mark).isSome ∧ left.Formed ∧ right.Formed

/-- The value of an expression under a limit of elements, however deeply it is nested. -/
def value (limit : Int64) : Expr → Except (Halt EvalError) Noun
  | .noun a => .ok a
  | .monad mark right =>
    match right.value limit with
    | .error e => .error e
    | .ok b => Verb.apply limit none mark b
  | .dyad left mark right =>
    match right.value limit with
    | .error e => .error e
    | .ok b =>
      match left.value limit with
      | .error e => .error e
      | .ok a => Verb.apply limit (some a) mark b

/-- Evaluating an expression comes to applying a verb to a noun on its right and perhaps one on its
left. The right operand comes first, and nothing is applied after the first failure. -/
inductive Applies (limit : Int64) : Expr → Option Noun → UInt8 → Noun → Prop where
  | monad {mark : UInt8} {right : Expr} {b : Noun} (hr : right.value limit = .ok b) :
      Applies limit (.monad mark right) none mark b
  | dyad {left right : Expr} {mark : UInt8} {a b : Noun} (hr : right.value limit = .ok b)
      (hl : left.value limit = .ok a) : Applies limit (.dyad left mark right) (some a) mark b
  | monadRight {m mark : UInt8} {right : Expr} {l : Option Noun} {r : Noun}
      (h : Applies limit right l m r) : Applies limit (.monad mark right) l m r
  | dyadRight {m mark : UInt8} {left right : Expr} {l : Option Noun} {r : Noun}
      (h : Applies limit right l m r) : Applies limit (.dyad left mark right) l m r
  | dyadLeft {m mark : UInt8} {left right : Expr} {b : Noun} {l : Option Noun} {r : Noun}
      (hr : right.value limit = .ok b) (h : Applies limit left l m r) :
      Applies limit (.dyad left mark right) l m r

variable {limit : Int64}

/-- An expression ends in a fault exactly if an application that it comes to does. -/
theorem value_eq_fault_iff (e : Expr) (f : Fault) : e.value limit = .error (.fault f) ↔
    ∃ l m r, e.Applies limit l m r ∧ Verb.apply limit l m r = .error (.fault f) := by
  constructor
  · intro h
    induction e with
    | noun a => cases h
    | monad mark right ih =>
      rw [value] at h
      cases hr : right.value limit with
      | error x =>
        rw [hr] at h
        cases h
        obtain ⟨l, m, r, ha, hf⟩ := ih hr
        exact ⟨l, m, r, .monadRight ha, hf⟩
      | ok b =>
        rw [hr] at h
        exact ⟨none, mark, b, .monad hr, h⟩
    | dyad left mark right ihl ihr =>
      rw [value] at h
      cases hr : right.value limit with
      | error x =>
        rw [hr] at h
        cases h
        obtain ⟨l, m, r, ha, hf⟩ := ihr hr
        exact ⟨l, m, r, .dyadRight ha, hf⟩
      | ok b =>
        rw [hr] at h
        cases hl : left.value limit with
        | error x =>
          rw [hl] at h
          cases h
          obtain ⟨l, m, r, ha, hf⟩ := ihl hl
          exact ⟨l, m, r, .dyadLeft hr ha, hf⟩
        | ok a =>
          rw [hl] at h
          exact ⟨some a, mark, b, .dyad hr hl, h⟩
  · rintro ⟨l, m, r, ha, hf⟩
    induction ha with
    | monad hr => rw [value, hr]; exact hf
    | dyad hr hl => rw [value, hr, hl]; exact hf
    | monadRight _ ih => rw [value, ih hf]
    | dyadRight _ ih => rw [value, ih hf]
    | dyadLeft hr _ ih => rw [value, hr, ih hf]

/-- A history of applications that evaluating an expression comes to, with their results. -/
def Records (limit : Int64) (e : Expr) (past : List Application) : Prop :=
  ∀ x ∈ past, e.Applies limit x.left x.mark x.right ∧
    Verb.apply limit x.left x.mark x.right = .ok x.result

private theorem Records.append {e : Expr} {past now : List Application} (hp : Records limit e past)
    (hn : Records limit e now) : Records limit e (now ++ past) := by
  intro x hx
  rcases List.mem_append.mp hx with hx | hx
  · exact hn x hx
  · exact hp x hx

private theorem Records.monadRight {mark : UInt8} {right : Expr} {past : List Application}
    (h : Records limit right past) : Records limit (.monad mark right) past :=
  fun x hx ↦ ⟨.monadRight (h x hx).1, (h x hx).2⟩

private theorem Records.dyadRight {mark : UInt8} {left right : Expr} {past : List Application}
    (h : Records limit right past) : Records limit (.dyad left mark right) past :=
  fun x hx ↦ ⟨.dyadRight (h x hx).1, (h x hx).2⟩

private theorem Records.dyadLeft {mark : UInt8} {left right : Expr} {b : Noun}
    {past : List Application} (h : Records limit left past) (hr : right.value limit = .ok b) :
    Records limit (.dyad left mark right) past :=
  fun x hx ↦ ⟨.dyadLeft hr (h x hx).1, (h x hx).2⟩

/-- The end of an application that an expression comes to records at most that application. -/
private theorem Applies.applied_eq {e : Expr} {c : Context} {l : Option Noun} {m : UInt8} {r : Noun}
    (h : e.Applies c.limits.elements l m r) :
    ∃ now, c.applied l m r =
      (Verb.apply c.limits.elements l m r, { c with history := now ++ c.history }) ∧
        Records c.limits.elements e now := by
  unfold Context.applied
  cases hv : Verb.apply c.limits.elements l m r with
  | error x => exact ⟨[], rfl, fun x hx ↦ absurd hx List.not_mem_nil⟩
  | ok a =>
    refine ⟨[⟨c.depth, l, m, r, a⟩], rfl, fun x hx ↦ ?_⟩
    rw [List.mem_singleton.mp hx]
    exact ⟨h, hv⟩

/-- Below the limit of depth a part of the evaluation is run one level deeper. -/
theorem deeper_of_lt {c : Context} (h : c.depth < c.limits.depth.toInt)
    (part : Context → Except (Halt EvalError) Noun × Context) :
    deeper c part = ((part { c with depth := c.depth + 1 }).1,
      (part { c with depth := c.depth + 1 }).2.leave) := by
  rw [deeper, Context.enter_eq_ok h]

/-- Within the limit of depth an evaluation gives the value of the expression, comes back to the
depth it started at, and records only applications that it comes to, with their results. -/
theorem eval_eq (e : Expr) (c : Context) (h : (c.depth + e.nesting : Int) ≤ c.limits.depth.toInt) :
    ∃ past, e.eval c = (e.value c.limits.elements, { c with history := past ++ c.history }) ∧
      Records c.limits.elements e past := by
  induction e generalizing c with
  | noun a => exact ⟨[], rfl, fun x hx ↦ absurd hx List.not_mem_nil⟩
  | monad mark right ih =>
    rw [nesting] at h
    obtain ⟨past, he, hp⟩ := ih { c with depth := c.depth + 1 } (by dsimp only; omega)
    dsimp only at he hp
    rw [eval, deeper_of_lt (by omega), he, value]
    cases hr : right.value c.limits.elements with
    | error x => exact ⟨past, rfl, hp.monadRight⟩
    | ok b =>
      dsimp only
      rw [Context.applyMonadic_eq]
      obtain ⟨now, ha, hn⟩ := Applies.applied_eq
        (c := { c with depth := c.depth + 1, history := past ++ c.history }) (.monad hr)
      refine ⟨now ++ past, ?_, hp.monadRight.append hn⟩
      rw [ha, List.append_assoc]
      rfl
  | dyad left mark right ihl ihr =>
    rw [nesting] at h
    obtain ⟨past, he, hp⟩ := ihr { c with depth := c.depth + 1 } (by dsimp only; omega)
    dsimp only at he hp
    rw [eval, deeper_of_lt (by omega), he, value]
    cases hr : right.value c.limits.elements with
    | error x => exact ⟨past, rfl, hp.dyadRight⟩
    | ok b =>
      obtain ⟨past', he', hp'⟩ :=
        ihl { c with depth := c.depth + 1, history := past ++ c.history } (by dsimp only; omega)
      dsimp only at he' hp' ⊢
      have hall : Records c.limits.elements (.dyad left mark right) (past' ++ past) :=
        hp.dyadRight.append (hp'.dyadLeft hr)
      rw [he']
      cases hl : left.value c.limits.elements with
      | error x =>
        refine ⟨past' ++ past, ?_, hall⟩
        rw [List.append_assoc]
        rfl
      | ok a =>
        dsimp only
        rw [Context.applyDyadic_eq]
        obtain ⟨now, ha, hn⟩ := Applies.applied_eq
          (c := { c with depth := c.depth + 1, history := past' ++ (past ++ c.history) })
          (.dyad hr hl)
        refine ⟨now ++ (past' ++ past), ?_, hall.append hn⟩
        rw [ha, List.append_assoc, List.append_assoc]
        rfl

/-- A level that gives a noun is within the limit of depth. -/
private theorem deeper_eq_ok {c d : Context}
    {part : Context → Except (Halt EvalError) Noun × Context}
    {a : Noun} (h : deeper c part = (.ok a, d)) :
    ∃ inner, part { c with depth := c.depth + 1 } = (.ok a, inner) ∧ d.limits = inner.limits := by
  by_cases hd : c.depth < c.limits.depth.toInt
  · rw [deeper_of_lt hd] at h
    cases hp : part { c with depth := c.depth + 1 } with
    | mk result inner =>
      rw [hp] at h
      cases h
      exact ⟨inner, rfl, rfl⟩
  · rw [deeper, Context.enter_eq_error (by omega)] at h
    cases h

/-- An evaluation that gives a noun gives the value of the expression and keeps the limits, whatever
depth it starts from. -/
theorem value_of_eval {e : Expr} {c d : Context} {a : Noun} (h : e.eval c = (.ok a, d)) :
    e.value c.limits.elements = .ok a ∧ d.limits = c.limits := by
  induction e generalizing c d a with
  | noun b =>
    cases h
    exact ⟨rfl, rfl⟩
  | monad mark right ih =>
    obtain ⟨inner, hp, hd⟩ := deeper_eq_ok h
    cases hr : right.eval { c with depth := c.depth + 1 } with
    | mk result c' =>
      rw [hr] at hp
      cases result with
      | error x => cases hp
      | ok b =>
        obtain ⟨hb, hl⟩ := ih hr
        obtain ⟨ha, hl'⟩ := Context.applied_eq_ok ((c'.applyMonadic_eq mark b).symm.trans hp)
        rw [hl] at ha hl'
        exact ⟨by rw [value, hb]; exact ha, hd.trans hl'⟩
  | dyad left mark right ihl ihr =>
    obtain ⟨inner, hp, hd⟩ := deeper_eq_ok h
    cases hr : right.eval { c with depth := c.depth + 1 } with
    | mk result c' =>
      rw [hr] at hp
      cases result with
      | error x => cases hp
      | ok b =>
        obtain ⟨hb, hl⟩ := ihr hr
        dsimp only at hp
        cases hx : left.eval c' with
        | mk result' c'' =>
          rw [hx] at hp
          cases result' with
          | error x => cases hp
          | ok u =>
            obtain ⟨hu, hl'⟩ := ihl hx
            obtain ⟨ha, hl''⟩ := Context.applied_eq_ok ((c''.applyDyadic_eq u mark b).symm.trans hp)
            rw [hl', hl] at ha hl''
            rw [hl] at hu
            exact ⟨by rw [value, hb, hu]; exact ha, hd.trans hl''⟩

end Expr

namespace Tree

/-- The levels of a tree: its verbs and parentheses on the longest path. -/
def nesting : Tree → Nat
  | .literal _ _ => 0
  | .monad _ right _ => right.nesting + 1
  | .dyad left _ right _ => max left.nesting right.nesting + 1
  | .paren inner _ => inner.nesting + 1
  | .hole => 0

/-- The expression of a tree, however deeply it is nested: parentheses are gone, and every verb has
the form in which it is used. -/
def erased : Tree → Except ResolveError Expr
  | .literal value _ => .ok (.noun value)
  | .paren inner _ => inner.erased
  | .monad mark right offset =>
    match right.erased with
    | .error e => .error e
    | .ok right =>
      if (Verb.monadic? mark).isSome then .ok (.monad mark right)
      else .error (.form ⟨.noMonadicForm, mark, offset⟩)
  | .dyad left mark right offset =>
    match right.erased with
    | .error e => .error e
    | .ok right =>
      match left.erased with
      | .error e => .error e
      | .ok left =>
        if (Verb.dyadic? mark).isSome then .ok (.dyad left mark right)
        else .error (.form ⟨.noDyadicForm, mark, offset⟩)
  | .hole => .error .hole

private theorem deeper_of_lt {c : Context} (h : c.depth < c.limits.depth.toInt)
    (part : Context → Except ResolveError Expr × Context) :
    deeper c part = ((part { c with depth := c.depth + 1 }).1,
      (part { c with depth := c.depth + 1 }).2.leave) := by
  rw [deeper, Context.enter_eq_ok h]

/-- A level is not resolved if it is one too many or if what is on it is not resolved. -/
theorem deeper_of_deep {c : Context} {part : Context → Except ResolveError Expr × Context}
    (h : c.depth < c.limits.depth.toInt → ∃ e, part { c with depth := c.depth + 1 } =
      (.error e, { c with depth := c.depth + 1 })) : ∃ e, deeper c part = (.error e, c) := by
  by_cases hd : c.depth < c.limits.depth.toInt
  · obtain ⟨e, he⟩ := h hd
    rw [deeper_of_lt hd, he]
    exact ⟨e, rfl⟩
  · rw [deeper, Context.enter_eq_error (by omega)]
    exact ⟨_, rfl⟩

/-- Within the limit of depth a tree is resolved to its expression. -/
theorem resolve_eq (t : Tree) (c : Context)
    (h : (c.depth + t.nesting : Int) ≤ c.limits.depth.toInt) : t.resolve c = (t.erased, c) := by
  induction t generalizing c with
  | literal value offset => rfl
  | hole => rfl
  | paren inner offset ih =>
    rw [nesting] at h
    rw [resolve, deeper_of_lt (by omega), ih _ (by dsimp only; omega)]
    rfl
  | monad mark right offset ih =>
    rw [nesting] at h
    rw [resolve, deeper_of_lt (by omega), ih _ (by dsimp only; omega), erased]
    cases right.erased with
    | error e => rfl
    | ok r => dsimp only; split <;> rfl
  | dyad left mark right offset ihl ihr =>
    rw [nesting] at h
    rw [resolve, deeper_of_lt (by omega), ihr _ (by dsimp only; omega), erased]
    cases right.erased with
    | error e => rfl
    | ok r =>
      dsimp only
      rw [ihl _ (by dsimp only; omega)]
      cases left.erased with
      | error e => rfl
      | ok l => dsimp only; split <;> rfl

/-- Beyond the limit of depth a tree is not resolved. -/
theorem resolve_of_deep (t : Tree) (c : Context) (hc : c.depth ≤ c.limits.depth.toInt)
    (h : c.limits.depth.toInt < c.depth + t.nesting) : ∃ e, t.resolve c = (.error e, c) := by
  induction t generalizing c with
  | literal value offset => rw [nesting] at h; omega
  | hole => rw [nesting] at h; omega
  | paren inner offset ih =>
    rw [nesting] at h
    exact deeper_of_deep fun hd ↦ ih _ (by dsimp only; omega) (by dsimp only; omega)
  | monad mark right offset ih =>
    rw [nesting] at h
    refine deeper_of_deep fun hd ↦ ?_
    obtain ⟨e, he⟩ := ih { c with depth := c.depth + 1 } (by dsimp only; omega)
      (by dsimp only; omega)
    rw [he]
    exact ⟨e, rfl⟩
  | dyad left mark right offset ihl ihr =>
    rw [nesting] at h
    refine deeper_of_deep fun hd ↦ ?_
    by_cases hr : c.limits.depth.toInt < (c.depth + 1 : Nat) + right.nesting
    · obtain ⟨e, he⟩ := ihr { c with depth := c.depth + 1 } (by dsimp only; omega) hr
      rw [he]
      exact ⟨e, rfl⟩
    · -- the right operand is resolved first, so its own error comes before the depth of the left
      rw [resolve_eq right _ (by dsimp only; omega)]
      cases right.erased with
      | error e => exact ⟨e, rfl⟩
      | ok r =>
        obtain ⟨e, he⟩ := ihl { c with depth := c.depth + 1 } (by dsimp only; omega)
          (by dsimp only; omega)
        dsimp only
        rw [he]
        exact ⟨e, rfl⟩

/-- A tree is resolved exactly if it is within the limit of depth and has an expression. -/
theorem resolve_eq_ok_iff {t : Tree} {c : Context} (hc : c.depth ≤ c.limits.depth.toInt)
    {e : Expr} : (t.resolve c).1 = .ok e ↔
      (c.depth + t.nesting : Int) ≤ c.limits.depth.toInt ∧ t.erased = .ok e := by
  by_cases h : (c.depth + t.nesting : Int) ≤ c.limits.depth.toInt
  · rw [resolve_eq t c h]
    exact ⟨fun he ↦ ⟨h, he⟩, fun he ↦ he.2⟩
  · obtain ⟨x, hx⟩ := resolve_of_deep t c hc (by omega)
    rw [hx]
    constructor
    · intro he
      cases he
    · exact fun he ↦ absurd he.1 h

/-- Resolving leaves the context as it was. -/
theorem resolve_snd {c : Context} (hc : c.depth ≤ c.limits.depth.toInt) (t : Tree) :
    (t.resolve c).2 = c := by
  by_cases h : (c.depth + t.nesting : Int) ≤ c.limits.depth.toInt
  · rw [resolve_eq t c h]
  · obtain ⟨x, hx⟩ := resolve_of_deep t c hc (by omega)
    rw [hx]

/-- The expression of a verb with nothing on its left. -/
theorem erased_monad_eq_ok_iff {mark : UInt8} {right : Tree} {offset : Int} {e : Expr} :
    (monad mark right offset).erased = .ok e ↔
      ∃ r, right.erased = .ok r ∧ (Verb.monadic? mark).isSome ∧ e = .monad mark r := by
  rw [erased]
  cases hr : right.erased with
  | error x => simp
  | ok r =>
    dsimp only
    split
    · next hm => simp [hm, eq_comm]
    · next hm => simp [hm]

/-- The expression of a verb between two operands. -/
theorem erased_dyad_eq_ok_iff {left right : Tree} {mark : UInt8} {offset : Int} {e : Expr} :
    (dyad left mark right offset).erased = .ok e ↔
      ∃ l r, left.erased = .ok l ∧ right.erased = .ok r ∧ (Verb.dyadic? mark).isSome ∧
        e = .dyad l mark r := by
  rw [erased]
  cases hr : right.erased with
  | error x => simp
  | ok r =>
    cases hl : left.erased with
    | error x => simp
    | ok l =>
      dsimp only
      split
      · next hm => simp [hm, eq_comm]
      · next hm => simp [hm]

/-- Every verb of the expression of a tree has the form in which it is used. -/
theorem formed_of_erased {t : Tree} {e : Expr} (h : t.erased = .ok e) : e.Formed := by
  induction t generalizing e with
  | literal value offset => cases h; exact True.intro
  | hole => cases h
  | paren inner offset ih => exact ih h
  | monad mark right offset ih =>
    obtain ⟨r, hr, hm, rfl⟩ := erased_monad_eq_ok_iff.mp h
    exact ⟨hm, ih hr⟩
  | dyad left mark right offset ihl ihr =>
    obtain ⟨l, r, hl, hr, hm, rfl⟩ := erased_dyad_eq_ok_iff.mp h
    exact ⟨hm, ihl hl, ihr hr⟩

/-- Erasing parentheses adds no levels. -/
theorem nesting_erased_le {t : Tree} {e : Expr} (h : t.erased = .ok e) :
    e.nesting ≤ t.nesting := by
  induction t generalizing e with
  | literal value offset => cases h; exact Nat.le_refl 0
  | hole => cases h
  | paren inner offset ih =>
    rw [nesting]
    exact Nat.le_succ_of_le (ih h)
  | monad mark right offset ih =>
    obtain ⟨r, hr, -, rfl⟩ := erased_monad_eq_ok_iff.mp h
    exact Nat.succ_le_succ (ih hr)
  | dyad left mark right offset ihl ihr =>
    obtain ⟨l, r, hl, hr, -, rfl⟩ := erased_dyad_eq_ok_iff.mp h
    have := ihl hl
    have := ihr hr
    rw [nesting, Expr.nesting]
    omega

/-- Once a tree is resolved, evaluating the expression in the same context gives its value, and
every verb of it has its form. -/
theorem eval_of_resolve {t : Tree} {c : Context} {e : Expr} (h : (t.resolve c).1 = .ok e) :
    (e.eval (t.resolve c).2).1 = e.value c.limits.elements ∧ e.Formed := by
  by_cases hc : c.depth ≤ c.limits.depth.toInt
  · obtain ⟨hn, he⟩ := (resolve_eq_ok_iff hc).mp h
    have hle := nesting_erased_le he
    obtain ⟨past, hv, -⟩ := e.eval_eq c (by omega)
    rw [resolve_snd hc, hv]
    exact ⟨rfl, formed_of_erased he⟩
  · -- beyond the limit only a literal is resolved
    have hdeep (part : Context → Except ResolveError Expr × Context) :
        (deeper c part).1 ≠ .ok e := by
      rw [deeper, Context.enter_eq_error (by omega)]
      nofun
    cases t with
    | literal value offset =>
      cases h
      exact ⟨rfl, True.intro⟩
    | hole => cases h
    | paren inner offset => exact absurd h (hdeep _)
    | monad mark right offset => exact absurd h (hdeep _)
    | dyad left mark right offset => exact absurd h (hdeep _)

end Tree

end Ravel
