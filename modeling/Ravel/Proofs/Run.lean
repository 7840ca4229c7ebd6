import Ravel.Evaluation
import Ravel.Proofs.Literal
import Ravel.Proofs.Parser
import Ravel.Proofs.Soundness

/-!
# Runs and the nouns that they make

The stages before the evaluation read a source as an expression (`Settings.Reads`), or end the run
with an error; a run whose source is read ends as the value of the expression does
(`Settings.ends_run`). Every noun that a run makes is exact, and it is no larger than the limit
of elements or the longest literal (`Settings.Makes.exact_and_bounded`).
-/

namespace Ravel

/-- The nouns of the expression of a derived tree are those of literals among the tokens. -/
theorem Tree.Derives.exists_literal {p : Phrase} {n : Nat} {ts : List Token} {t : Tree} {e : Expr}
    {a : Noun} (h : Derives p n ts t) (he : t.erased = .ok e) (ha : a ∈ e.nouns) :
    ∃ token ∈ ts, token.isLiteral ∧ Noun.ofLiteral token.text = .ok a := by
  induction h generalizing e with
  | @literal token b hk hb =>
    cases he
    rw [List.mem_singleton.mp ha]
    refine ⟨token, List.mem_singleton_self token, ?_, hb⟩
    rcases hk with hk | hk <;> simp [Token.isLiteral, hk]
  | @monad v mark n ts r hk hm hr ih =>
    obtain ⟨right, hx, -, rfl⟩ := erased_monad_eq_ok_iff.mp he
    obtain ⟨token, ht, hl⟩ := ih hx ha
    exact ⟨token, List.mem_cons_of_mem v ht, hl⟩
  | @paren opening closing n ts inner ho hc hd ih =>
    obtain ⟨token, ht, hl⟩ := ih he ha
    exact ⟨token, List.mem_cons_of_mem opening (List.mem_append_left _ ht), hl⟩
  | single hd ih => exact ih he ha
  | @dyad v mark m n ts us l r hl hk hm hr ihl ihr =>
    obtain ⟨left, right, hx, hy, -, rfl⟩ := erased_dyad_eq_ok_iff.mp he
    rcases List.mem_append.mp ha with ha | ha
    · obtain ⟨token, ht, hx⟩ := ihl hx ha
      exact ⟨token, List.mem_append_left _ ht, hx⟩
    · obtain ⟨token, ht, hx⟩ := ihr hy ha
      exact ⟨token, List.mem_append_right _ (List.mem_cons_of_mem v ht), hx⟩

namespace Settings

variable {s : Settings} {source : Text} {e : Expr} {a : Noun}

/-- The depth that is allowed is positive. -/
theorem maxDepth_pos (s : Settings) : 0 < s.maxDepth.toInt := by
  unfold maxDepth
  split
  · decide
  · next h =>
    rw [Int64.le_iff_toInt_le, Int64.toInt_zero] at h
    omega

/-- The number of elements that is allowed is positive. -/
theorem maxElements_pos (s : Settings) : 0 < s.maxElements.toInt := by
  unfold maxElements
  split
  · decide
  · next h =>
    rw [Int64.le_iff_toInt_le, Int64.toInt_zero] at h
    omega

/-- A run starts within the limit of depth. -/
theorem start_le_depth (s : Settings) :
    ((Context.start s.limits).depth : Int) ≤ (Context.start s.limits).limits.depth.toInt := by
  have := s.maxDepth_pos
  simp only [Context.start, limits]
  omega

/-- A run resolves the trees within the limit of depth that have an expression. -/
theorem resolve_start_eq_ok_iff {tree : Tree} :
    (tree.resolve (Context.start s.limits)).1 = .ok e ↔
      (tree.nesting : Int) ≤ s.maxDepth.toInt ∧ tree.erased = .ok e := by
  rw [Tree.resolve_eq_ok_iff s.start_le_depth]
  simp [Context.start, limits]

/-- The stages before the evaluation read a source as an expression. -/
def Reads (s : Settings) (source : Text) (e : Expr) : Prop :=
  (Token.scan source).error = none ∧
    ∃ tree, Tree.parse s.maxDepth (Token.scan source).tokens = .ok tree ∧
      (tree.resolve (Context.start s.limits)).1 = .ok e

/-- A source is read if it has tokens, they have a tree, and the tree is resolved. -/
theorem reads_iff_stages : s.Reads source e ↔
    ∃ tokens tree, Token.tokenize source = .ok tokens ∧
      Tree.parse s.maxDepth tokens = .ok tree ∧
      (tree.resolve (Context.start s.limits)).1 = .ok e := by
  unfold Reads Token.tokenize
  rcases Token.scan source with ⟨tokens, error⟩
  cases error with
  | none => simp
  | some x => simp

/-- A source is read if its tokens have a derivation and a tree within the limits of depth. -/
theorem reads_iff : s.Reads source e ↔ (Token.scan source).error = none ∧
    ∃ (n : Nat) (tree : Tree), Tree.Derives .expression n (Token.scan source).tokens tree ∧
      (n : Int) ≤ (2 * s.maxDepth + 2).toInt ∧ (tree.nesting : Int) ≤ s.maxDepth.toInt ∧
      tree.erased = .ok e := by
  have hparse (tree : Tree) : Tree.parse s.maxDepth (Token.scan source).tokens = .ok tree ↔
      ∃ n : Nat, Tree.Derives .expression n (Token.scan source).tokens tree ∧
        (n : Int) ≤ (2 * s.maxDepth + 2).toInt :=
    Tree.parse_eq_ok_iff_derives fun _ ht ↦ Token.kind_ne_eof_of_mem_tokens ht
  unfold Reads
  simp only [hparse, resolve_start_eq_ok_iff]
  constructor
  · rintro ⟨hs, tree, ⟨n, hd, hg⟩, hr⟩
    exact ⟨hs, n, tree, hd, hg, hr⟩
  · rintro ⟨hs, n, tree, hd, hg, hr⟩
    exact ⟨hs, tree, ⟨n, hd, hg⟩, hr⟩

/-- A source that is read comes to no deeper level than the limit allows. -/
theorem Reads.nesting_le (h : s.Reads source e) : (e.nesting : Int) ≤ s.maxDepth.toInt := by
  obtain ⟨-, n, tree, -, -, hn, he⟩ := reads_iff.mp h
  have := Tree.nesting_erased_le he
  omega

/-- Every verb of the expression that a source is read as has the form in which it is used. -/
theorem Reads.formed (h : s.Reads source e) : e.Formed := by
  obtain ⟨-, n, tree, -, -, -, he⟩ := reads_iff.mp h
  exact Tree.formed_of_erased he

/-- The evaluation of a source that is read gives the value of the expression and records the
applications of verbs that it comes to. -/
private theorem Reads.eval_eq (h : s.Reads source e) :
    (e.eval (Context.start s.limits)).1 = e.value s.maxElements ∧
      ∀ x ∈ (e.eval (Context.start s.limits)).2.history,
        e.Applies s.maxElements x.left x.mark x.right ∧
          Verb.apply s.maxElements x.left x.mark x.right = .ok x.result := by
  have hn := h.nesting_le
  obtain ⟨past, he, hp⟩ :=
    e.eval_eq (Context.start s.limits) (by simpa [Context.start, limits] using hn)
  rw [he]
  refine ⟨rfl, fun x hx ↦ hp x ?_⟩
  simpa [Context.start] using hx

/-- The run of a source that is read ends as the value of the expression. -/
theorem run_of_reads (h : s.Reads source e) :
    (s.run source).result = (e.value s.maxElements).mapError (Halt.map .eval) := by
  have hv := h.eval_eq.1
  obtain ⟨hs, tree, hp, hr⟩ := h
  have hresolve : tree.resolve (Context.start s.limits) = (.ok e, Context.start s.limits) :=
    Prod.ext hr (Tree.resolve_snd s.start_le_depth tree)
  simp only [run, runStages, hs, hp, runTree, hresolve]
  cases hx : e.eval (Context.start s.limits) with
  | mk result c =>
    rw [hx] at hv
    dsimp only at hv ⊢
    rw [← hv]
    cases result <;> rfl

/-- How a run can end. The first stage that fails ends it with its error, and a source that is read
ends it as the value of the expression. -/
inductive Ends (s : Settings) (source : Text) : Except (Halt StageError) Noun → Prop where
  | tokenize {x : ScanError} (hs : (Token.scan source).error = some x) :
      Ends s source (.error (.error (.tokenize x)))
  | parse {x : ParseError} (hs : (Token.scan source).error = none)
      (hp : Tree.parse s.maxDepth (Token.scan source).tokens = .error (.error x)) :
      Ends s source (.error (.error (.parse x)))
  | semantic {tree : Tree} {x : ResolveError} (hs : (Token.scan source).error = none)
      (hp : Tree.parse s.maxDepth (Token.scan source).tokens = .ok tree)
      (hr : (tree.resolve (Context.start s.limits)).1 = .error x) :
      Ends s source (.error (.error (.semantic x)))
  | value {e : Expr} (he : s.Reads source e) :
      Ends s source ((e.value s.maxElements).mapError (Halt.map .eval))

/-- A run ends in no other way. -/
theorem ends_run (s : Settings) (source : Text) : s.Ends source (s.run source).result := by
  cases hs : (Token.scan source).error with
  | some x =>
    have hrun : (s.run source).result = .error (.error (.tokenize x)) := by
      simp only [run, runStages, hs]
    rw [hrun]
    exact .tokenize hs
  | none =>
    cases hp : Tree.parse s.maxDepth (Token.scan source).tokens with
    | error x =>
      cases x with
      | error x =>
        have hrun : (s.run source).result = .error (.error (.parse x)) := by
          simp only [run, runStages, hs, hp, Halt.map]
        rw [hrun]
        exact .parse hs hp
      | fault f =>
        refine absurd hp (Tree.parse_ne_fault (fun t ht hk ↦ ?_) f)
        rcases Token.kind_of_mem_tokens ht with ⟨-, hne⟩ | ⟨hl, -⟩
        · exact hne
        · simp [Token.isLiteral, hk] at hl
    | ok tree =>
      cases hr : (tree.resolve (Context.start s.limits)).1 with
      | error x =>
        have hresolve :
            tree.resolve (Context.start s.limits) = (.error x, Context.start s.limits) :=
          Prod.ext hr (Tree.resolve_snd s.start_le_depth tree)
        have hrun : (s.run source).result = .error (.error (.semantic x)) := by
          simp only [run, runStages, hs, hp, runTree, hresolve]
        rw [hrun]
        exact .semantic hs hp hr
      | ok e =>
        have he : s.Reads source e := ⟨hs, tree, hp, hr⟩
        rw [run_of_reads he]
        exact .value he

/-- The error of a run is that of the first stage that fails. -/
theorem stage_of_run {x : StageError} (h : (s.run source).result = .error (.error x)) :
    (∃ y, x = .tokenize y ∧ (Token.scan source).error = some y) ∨
    (∃ y, x = .parse y ∧ (Token.scan source).error = none ∧
      Tree.parse s.maxDepth (Token.scan source).tokens = .error (.error y)) ∨
    (∃ y tree, x = .semantic y ∧ (Token.scan source).error = none ∧
      Tree.parse s.maxDepth (Token.scan source).tokens = .ok tree ∧
      (tree.resolve (Context.start s.limits)).1 = .error y) ∨
    ∃ y e, x = .eval y ∧ s.Reads source e ∧ e.value s.maxElements = .error (.error y) := by
  have hends := s.ends_run source
  rw [h] at hends
  generalize hr : (Except.error (Halt.error x) : Except (Halt StageError) Noun) = r at hends
  cases hends with
  | tokenize hs =>
    cases hr
    exact .inl ⟨_, rfl, hs⟩
  | parse hs hp =>
    cases hr
    exact .inr (.inl ⟨_, rfl, hs, hp⟩)
  | semantic hs hp hx =>
    cases hr
    exact .inr (.inr (.inl ⟨_, _, rfl, hs, hp, hx⟩))
  | @value e he =>
    cases hv : e.value s.maxElements with
    | ok a => rw [hv] at hr; cases hr
    | error y =>
      cases y with
      | fault f => rw [hv] at hr; cases hr
      | error y =>
        rw [hv] at hr
        cases hr
        exact .inr (.inr (.inr ⟨y, e, rfl, he, hv⟩))

/-- A run gives a noun exactly if its source is read as an expression with that value. -/
theorem run_eq_ok_iff : (s.run source).result = .ok a ↔
    ∃ e, s.Reads source e ∧ e.value s.maxElements = .ok a := by
  constructor
  · intro h
    have hends := s.ends_run source
    rw [h] at hends
    generalize hr : (Except.ok a : Except (Halt StageError) Noun) = r at hends
    cases hends with
    | tokenize hs => cases hr
    | parse hs hp => cases hr
    | semantic hs hp hx => cases hr
    | @value e he => exact ⟨e, he, mapError_eq_ok_iff.mp hr.symm⟩
  · rintro ⟨e, he, hv⟩
    rw [run_of_reads he, hv]
    rfl

/-- A run ends in an error or a fault of the evaluation exactly if its source is read as an
expression that does. -/
theorem run_eq_eval_iff {x : Halt EvalError} : (s.run source).result = .error (x.map .eval) ↔
    ∃ e, s.Reads source e ∧ e.value s.maxElements = .error x := by
  constructor
  · intro h
    have hends := s.ends_run source
    rw [h] at hends
    generalize hr : (Except.error (x.map .eval) : Except (Halt StageError) Noun) = r at hends
    cases hends with
    | tokenize hs => cases x <;> cases hr
    | parse hs hp => cases x <;> cases hr
    | semantic hs hp hx => cases x <;> cases hr
    | @value e he =>
      refine ⟨e, he, ?_⟩
      cases hv : e.value s.maxElements with
      | ok b => rw [hv] at hr; cases hr
      | error y =>
        rw [hv] at hr
        cases x <;> cases y <;> cases hr <;> rfl
  · rintro ⟨e, he, hv⟩
    rw [run_of_reads he, hv]
    rfl

/-- A run ends in a fault exactly if its source is read as an expression that does. -/
theorem run_eq_fault_iff {f : Fault} : (s.run source).result = .error (.fault f) ↔
    ∃ e, s.Reads source e ∧ e.value s.maxElements = .error (.fault f) :=
  run_eq_eval_iff (x := .fault f)

/-! ### Nouns that a run makes -/

/-- The larger of the limit of elements and the longest literal. -/
def elementBound (s : Settings) (source : Text) : Nat :=
  max s.maxElements.toInt.toNat (Token.longestLiteral source)

/-- The limit of elements fits the bound if both the limit and the source are small. -/
theorem fits_elementBound (hl : s.maxElements.toInt ≤ 0x80000000)
    (hs : source.length < 0x80000000) : Fits s.maxElements (s.elementBound source) := by
  have hpos := s.maxElements_pos
  have hlong := Token.longestLiteral_le_length source
  unfold elementBound
  exact ⟨hpos, by omega, by omega⟩

private theorem literal_sound {limit : Int64} {bound : Nat} (hf : Fits limit bound)
    (hb : Token.longestLiteral source ≤ bound) {t : Token} (ht : t ∈ (Token.scan source).tokens)
    (hl : t.isLiteral) (ha : Noun.ofLiteral t.text = .ok a) : a.Sound bound := by
  have hle := Token.integers_le_longestLiteral ht hl
  obtain ⟨hsize, ⟨x, rfl⟩ | ⟨xs, rfl⟩⟩ := Noun.ofLiteral_of_mem_tokens ht hl ha
  · exact Noun.scalar_sound hf x
  · exact Noun.vector_sound hf.small (Nat.le_trans (Nat.le_of_eq hsize) (Nat.le_trans hle hb))

private theorem Reads.exists_literal (h : s.Reads source e) (ha : a ∈ e.nouns) :
    ∃ t ∈ (Token.scan source).tokens, t.isLiteral ∧ Noun.ofLiteral t.text = .ok a := by
  obtain ⟨-, n, tree, hd, -, -, he⟩ := reads_iff.mp h
  exact hd.exists_literal he ha

/-- The nouns of the expression that a source is read as are sound. -/
theorem Reads.sound {limit : Int64} {bound : Nat} (h : s.Reads source e) (hf : Fits limit bound)
    (hb : Token.longestLiteral source ≤ bound) : ∀ a ∈ e.nouns, a.Sound bound := by
  intro a ha
  obtain ⟨t, ht, hl, hx⟩ := h.exists_literal ha
  exact literal_sound hf hb ht hl hx

/-- The nouns that a run makes: those of the literals of the source, the results of the verbs that
the evaluation applies, and the result of the run. -/
inductive Makes (s : Settings) (source : Text) : Noun → Prop where
  | literal {t : Token} {a : Noun} (ht : t ∈ (Token.scan source).tokens) (hl : t.isLiteral)
      (ha : Noun.ofLiteral t.text = .ok a) : Makes s source a
  | application {tree : Tree} {e : Expr} {c : Context} {x : Application}
      (hs : (Token.scan source).error = none)
      (hp : Tree.parse s.maxDepth (Token.scan source).tokens = .ok tree)
      (hr : tree.resolve (Context.start s.limits) = (.ok e, c)) (hx : x ∈ (e.eval c).2.history) :
      Makes s source x.result
  | result {a : Noun} (h : (s.run source).result = .ok a) : Makes s source a

/-- What every verb keeps passes from the literals of a source to every noun that a run makes. -/
theorem Makes.of_keeps {P : Noun → Prop} (h : s.Makes source a)
    (hk : Verb.Keeps s.maxElements P)
    (hlit : ∀ t ∈ (Token.scan source).tokens, t.isLiteral →
      ∀ b, Noun.ofLiteral t.text = .ok b → P b) : P a := by
  have hnouns {e : Expr} (he : s.Reads source e) : ∀ b ∈ e.nouns, P b := by
    intro b hb
    obtain ⟨t, ht, hl, hx⟩ := he.exists_literal hb
    exact hlit t ht hl b hx
  cases h with
  | literal ht hl ha => exact hlit _ ht hl _ ha
  | @application tree e c x hs hp hr hx =>
    have hreads : s.Reads source e := ⟨hs, tree, hp, by rw [hr]⟩
    have hc := Tree.resolve_snd s.start_le_depth tree
    rw [hr] at hc
    dsimp only at hc
    subst hc
    obtain ⟨happ, hres⟩ := hreads.eval_eq.2 x hx
    obtain ⟨hl, hr⟩ := happ.of_keeps hk (hnouns hreads)
    exact hk x.left x.mark x.right x.result hl hr hres
  | result h =>
    obtain ⟨e, he, hv⟩ := run_eq_ok_iff.mp h
    exact Expr.value_of_keeps hk (hnouns he) hv

/-- Every noun that a run makes is sound. -/
theorem Makes.sound {bound : Nat} (h : s.Makes source a) (hf : Fits s.maxElements bound)
    (hb : Token.longestLiteral source ≤ bound) : a.Sound bound :=
  h.of_keeps (Verb.keeps_sound hf) fun _ ht hl _ hx ↦ literal_sound hf hb ht hl hx

/-- While the limit of elements and the source are small, every noun that a run makes has as many
elements as its shape says, and no more than the limit allows or the longest literal has. -/
theorem Makes.exact_and_bounded (hl : s.maxElements.toInt ≤ 0x80000000)
    (hs : source.length < 0x80000000) (h : s.Makes source a) :
    extent a.shape = a.size ∧
      (a.size : Int) ≤ max s.maxElements.toInt (Token.longestLiteral source) := by
  have ha := h.sound (fits_elementBound hl hs) (Nat.le_max_right _ _)
  have hle := ha.size_le
  have hpos := s.maxElements_pos
  refine ⟨ha.exact, ?_⟩
  unfold elementBound at hle
  omega

/-- The vector that `1 2,3 4 5` makes. -/
theorem Makes.exact_and_bounded_vector : extent [5] = 5 ∧ (5 : Int) ≤ max 4194304 3 := by
  have h : ({} : Settings).Makes (Text.ofString "1 2,3 4 5") ⟨[5], #[1, 2, 3, 4, 5]⟩ :=
    .result rfl
  exact Makes.exact_and_bounded (by decide) (by decide) h

end Settings

end Ravel
