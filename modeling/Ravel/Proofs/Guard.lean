import Ravel.Proofs.Errors
import Ravel.Proofs.Places
import Ravel.Proofs.Spelling

/-!
# The guard of the parser and the limit of depth

The parser counts a level for each expression that it is in and for each verb that waits for a term,
the resolver one for each verb and each parenthesis of the tree. A descent is the parse with every
level that the parser enters (`Tree.Descent`): through tokens that are accepted it comes exactly as
deep as their derivation (`Tree.Derives.deepest_descent`). On the tokens of an expression it never
enters a level deeper than the tree by more than one (`Tree.Derives.levels_descent_le`). The guard
of twice the limit and two is therefore met only by trees that the resolver refuses, and a source
whose verbs have their forms is refused for its depth exactly if its tree is deeper than the limit
(`Settings.endsTooDeep_iff`).
-/

namespace Ravel

namespace Tree

/-! ### Descents -/

/-- A parse with the levels that the parser enters on the way, in their order. -/
structure Descent where
  result : Except (Halt ParseError) Tree
  levels : List Nat

namespace Descent

/-- The deepest level that a descent enters. -/
def deepest (d : Descent) : Nat := d.levels.foldl max 0

/-- A parse that ends where it is. -/
def still (result : Except (Halt ParseError) Tree) : Descent := ⟨result, []⟩

/-- Enters the level above some frames, and goes on there unless it is beyond the guard. -/
def enter (limit : Int64) (frames : List Frame) (refusal : ParseError) (next : Descent) : Descent :=
  if withinGuard limit frames then ⟨next.result, (frames.length + 1) :: next.levels⟩
  else ⟨.error (.error refusal), [frames.length + 1]⟩

end Descent

/-- Descends through tokens with frames and perhaps a term. -/
def descend (limit : Int64) (stop : Int) (frames : List Frame) (term : Option Tree) :
    List Token → Descent
  | [] => .still (finish (Token.endAt stop) frames term)
  | token :: rest =>
    match term, token.kind with
    | none, .verb =>
      let frames := .monad token.text.head? token.offset :: frames
      .enter limit frames (.tooDeep limit token.offset) (descend limit stop frames none rest)
    | none, .leftParen =>
      let frames := .paren token :: frames
      .enter limit frames (.tooDeep limit (upcoming stop rest).offset)
        (descend limit stop frames none rest)
    | some t, .verb =>
      let frames := .dyad t token.text.head? token.offset :: frames
      .enter limit frames (.tooDeep limit (upcoming stop rest).offset)
        (descend limit stop frames none rest)
    | some t, .rightParen =>
      match closeDyads frames t with
      | .error f => .still (.error (.fault f))
      | .ok (.paren opening :: frames, t) =>
        match closeMonads frames (.paren t opening.offset) with
        | .error f => .still (.error (.fault f))
        | .ok (frames, t) => descend limit stop frames (some t) rest
      | .ok _ => .still (finish token frames term)
    | none, .number | none, .vector =>
      match Noun.ofLiteral token.text with
      | .error _ => .still (.error (.error (.unexpected token)))
      | .ok value =>
        match closeMonads frames (.literal value token.offset) with
        | .error f => .still (.error (.fault f))
        | .ok (frames, t) => descend limit stop frames (some t) rest
    | _, _ => .still (finish token frames term)

/-- The descent through all tokens; the expression that they form is a level itself. -/
def descent (limit : Int64) (tokens : List Token) : Descent :=
  let stop := Token.endOffset tokens
  .enter limit [] (.tooDeep limit (upcoming stop tokens).offset)
    (descend limit stop [] none tokens)

private theorem Descent.result_enter (limit : Int64) (frames : List Frame) (refusal : ParseError)
    (next : Descent) : (enter limit frames refusal next).result =
      if withinGuard limit frames then next.result else .error (.error refusal) := by
  unfold enter
  split <;> rfl

/-- A descent ends as the parse does. -/
private theorem result_descend (limit : Int64) (stop : Int) (frames : List Frame)
    (term : Option Tree) (tokens : List Token) :
    (descend limit stop frames term tokens).result = parseLoop limit stop frames term tokens := by
  induction tokens generalizing frames term with
  | nil => rfl
  | cons token rest ih =>
    cases term with
    | none =>
      cases hk : token.kind with
      | number | vector =>
        simp only [descend, parseLoop, hk]
        cases Noun.ofLiteral token.text with
        | error e => rfl
        | ok value =>
          dsimp only
          cases closeMonads frames (.literal value token.offset) with
          | error f => rfl
          | ok closed => exact ih closed.1 (some closed.2)
      | _ => simp only [descend, parseLoop, hk, Descent.still, Descent.result_enter, ih]
    | some t =>
      cases hk : token.kind with
      | rightParen =>
        simp only [descend, parseLoop, hk]
        rcases closeDyads frames t with f | ⟨_ | ⟨frame, outer⟩, e⟩
        · rfl
        · rfl
        · cases frame with
          | monad mark offset => rfl
          | dyad left mark offset => rfl
          | paren opening =>
            dsimp only
            cases closeMonads outer (.paren e opening.offset) with
            | error f => rfl
            | ok closed => exact ih closed.1 (some closed.2)
      | _ => simp only [descend, parseLoop, hk, Descent.still, Descent.result_enter, ih]

private theorem result_descent (limit : Int64) (tokens : List Token) :
    (descent limit tokens).result = parse limit tokens := by
  simp only [descent, parse, Descent.result_enter, result_descend]

/-! ### Descents along a derivation -/

/-- A descent that goes on as another one after some levels, all of them within the guard, or that
is refused at one of them. `base` is the deepest level before them and `bound` the deepest one after
them; a descent that is refused may not come to it. -/
inductive Descent.Follows (limit : Int64) (base bound : Nat) (next : Descent) : Descent → Prop where
  | onward {levels : List Nat} (hb : levels.foldl max base = bound)
      (hg : ∀ k ∈ levels, (k : Int) ≤ (2 * limit + 2).toInt) :
      Follows limit base bound next ⟨next.result, levels ++ next.levels⟩
  | refused {levels : List Nat} {offset : Int} (hle : base ≤ bound) (hb : ∀ k ∈ levels, k ≤ bound)
      (hg : ∃ k ∈ levels, (2 * limit + 2).toInt < k) :
      Follows limit base bound next ⟨.error (.error (.tooDeep limit offset)), levels⟩

namespace Descent

variable {limit : Int64} {base bound : Nat} {next d : Descent}

private theorem le_foldl_max (base : Nat) (levels : List Nat) :
    base ≤ levels.foldl max base ∧ ∀ k ∈ levels, k ≤ levels.foldl max base :=
  List.forall_mem_cons.mp ((List.max?_le_iff List.max?_cons').mp (Nat.le_refl _))

private theorem Follows.refl (d : Descent) : Follows limit base base d d :=
  @Follows.onward limit base base d [] rfl nofun

private theorem Follows.trans {mid : Descent} {bound' : Nat} (h : Follows limit base bound mid d)
    (h' : Follows limit bound bound' next mid) : Follows limit base bound' next d := by
  cases h with
  | @refused outer offset hle hb hg =>
    have hle' : bound ≤ bound' := by
      cases h' with
      | @onward inner hb' hg' => exact hb' ▸ (le_foldl_max bound inner).1
      | refused hle' hb' hg' => exact hle'
    exact .refused (Nat.le_trans hle hle') (fun k hk ↦ Nat.le_trans (hb k hk) hle') hg
  | @onward outer hb hg =>
    obtain ⟨hbase, houter⟩ := le_foldl_max base outer
    rw [hb] at hbase houter
    cases h' with
    | @onward inner hb' hg' =>
      rw [← List.append_assoc]
      refine .onward ?_ (List.forall_mem_append.mpr ⟨hg, hg'⟩)
      rw [List.foldl_append, hb, hb']
    | @refused inner offset hle' hb' hg' =>
      obtain ⟨k, hk, hlt⟩ := hg'
      refine .refused (Nat.le_trans hbase hle') ?_ ⟨k, List.mem_append_right _ hk, hlt⟩
      exact List.forall_mem_append.mpr ⟨fun k hk ↦ Nat.le_trans (houter k hk) hle', hb'⟩

/-- Entering the level above some frames. -/
private theorem follows_enter (frames : List Frame) (offset : Int) (d : Descent) :
    Follows limit base (max base (frames.length + 1)) d
      (enter limit frames (.tooDeep limit offset) d) := by
  unfold Descent.enter
  by_cases hg : withinGuard limit frames
  · rw [if_pos hg]
    refine @Follows.onward limit _ _ d [frames.length + 1] rfl ?_
    simpa using withinGuard_iff.mp hg
  · rw [if_neg hg]
    refine .refused (Nat.le_max_left _ _) ?_ ⟨frames.length + 1, List.mem_singleton_self _, ?_⟩
    · intro k hk
      rw [List.mem_singleton.mp hk]
      exact Nat.le_max_right _ _
    · rw [withinGuard_iff] at hg
      push_cast
      omega

end Descent

variable {limit : Int64} {stop : Int} {frames : List Frame} {t : Tree} {token : Token}
  {rest : List Token}

/-- Descends on with the frames and the term that closing verbs has left. -/
def descendOn (limit : Int64) (stop : Int) (rest : List Token) :
    Except Fault (List Frame × Tree) → Descent
  | .error f => .still (.error (.fault f))
  | .ok (frames, t) => descend limit stop frames (some t) rest

private theorem descend_literal (hk : token.kind = .number ∨ token.kind = .vector) {a : Noun}
    (ha : Noun.ofLiteral token.text = .ok a) :
    descend limit stop frames none (token :: rest) =
      descendOn limit stop rest (closeMonads frames (.literal a token.offset)) := by
  rcases hk with hk | hk
  all_goals
    simp only [descend, hk, ha]
    cases closeMonads frames (.literal a token.offset) <;> rfl

private theorem descend_closing (hk : token.kind = .rightParen) {opening : Token}
    {outer : List Frame} {e : Tree} (hc : closeDyads frames t = .ok (.paren opening :: outer, e)) :
    descend limit stop frames (some t) (token :: rest) =
      descendOn limit stop rest (closeMonads outer (.paren e opening.offset)) := by
  simp only [descend, hk, hc]
  cases closeMonads outer (.paren e opening.offset) <;> rfl

/-- How the parser descends through the tokens of a phrase: as deep as the levels of the derivation
say, above the frames that there are. -/
def Descends (limit : Int64) (stop : Int) (n : Nat) (ts : List Token) (t : Tree) : Phrase → Prop
  | .term => ∀ frames rest base, frames.length + 1 ≤ base →
      Descent.Follows limit base (max base (frames.length + 1 + n))
        (descendOn limit stop rest (closeMonads frames t))
        (descend limit stop frames none (ts ++ rest))
  | .expression => ∀ frames rest base, NoMonadOnTop frames → frames.length + 1 ≤ base →
      ∃ inner u, Descent.Follows limit base (max base (frames.length + n))
        (descend limit stop inner (some u) rest) (descend limit stop frames none (ts ++ rest)) ∧
          closeDyads inner u = closeDyads frames t

/-- The parser descends so through every derivation, whatever its guard is. -/
private theorem Derives.descends {p : Phrase} {n : Nat} {ts : List Token} {t : Tree} (limit : Int64)
    (stop : Int) (h : Derives p n ts t) : Descends limit stop n ts t p := by
  induction h with
  | literal hk ha =>
    intro frames rest base hbase
    rw [List.singleton_append, descend_literal hk ha, Nat.add_zero, Nat.max_eq_left hbase]
    exact .refl _
  | @monad v mark n ts r hk hm hr ih =>
    intro frames rest base hbase
    simp only [List.cons_append, descend, hk, hm]
    have hterm := ih (.monad (some mark) v.offset :: frames) rest (max base (frames.length + 2))
      (Nat.le_max_right _ _)
    have hlevels : max base (frames.length + 1 + (n + 1)) =
        max (max base (frames.length + 2)) (frames.length + 1 + 1 + n) := by omega
    rw [hlevels]
    exact (Descent.follows_enter _ _ _).trans hterm
  | @paren opening closing n ts e ho hc he ih =>
    intro frames rest base hbase
    have hn := he.levels_pos
    obtain ⟨inner, u, hd, hcl⟩ := ih (.paren opening :: frames) (closing :: rest)
      (max base (frames.length + 2)) (fun _ _ ↦ nofun) (Nat.le_max_right _ _)
    rw [descend_closing hc hcl] at hd
    simp only [List.cons_append, List.append_assoc, List.nil_append, descend, ho]
    have hlevels : max base (frames.length + 1 + n) =
        max (max base (frames.length + 2)) (frames.length + 1 + n) := by omega
    rw [hlevels]
    exact (Descent.follows_enter _ _ _).trans hd
  | @single n ts t ht ih =>
    intro frames rest base hb hbase
    have hd := ih frames rest base hbase
    rw [closeMonads_of_noMonadOnTop hb, Nat.add_right_comm] at hd
    exact ⟨frames, _, hd, rfl⟩
  | @dyad v mark m n ts us l r hl hk hm hr ihl ihr =>
    intro frames rest base hb hbase
    have hn := hr.levels_pos
    have hleft := ihl frames (v :: us ++ rest) base hbase
    rw [closeMonads_of_noMonadOnTop hb] at hleft
    simp only [descendOn, List.cons_append, descend, hk, hm] at hleft
    obtain ⟨inner, u, hright, hcl⟩ := ihr (.dyad l (some mark) v.offset :: frames) rest
      (max (max base (frames.length + 1 + m)) (frames.length + 2)) (fun _ _ ↦ nofun)
      (Nat.le_max_right _ _)
    refine ⟨inner, u, ?_, hcl⟩
    rw [List.append_assoc]
    have hlevels : max base (frames.length + (max m n + 1)) =
        max (max (max base (frames.length + 1 + m)) (frames.length + 2))
          (frames.length + 1 + n) := by omega
    rw [hlevels]
    exact (hleft.trans (Descent.follows_enter _ _ _)).trans hright

/-- The descent through the tokens of an expression comes to its tree, within the guard and as deep
as the derivation says, or it is refused at a level beyond the guard. -/
private theorem Derives.follows_descent {n : Nat} {tokens : List Token} {tree : Tree}
    (limit : Int64) (h : Derives .expression n tokens tree) :
    Descent.Follows limit 0 n (.still (.ok tree)) (descent limit tokens) := by
  have hn := h.levels_pos
  obtain ⟨inner, u, hd, hcl⟩ :=
    h.descends limit (Token.endOffset tokens) [] [] 1 (fun _ _ ↦ nofun) (Nat.le_refl _)
  have hend : descend limit (Token.endOffset tokens) inner (some u) [] = .still (.ok tree) := by
    rw [descend, finish, hcl]
    rfl
  rw [hend, List.append_nil, List.length_nil, Nat.zero_add, Nat.max_eq_right hn] at hd
  exact (Descent.follows_enter [] _ _).trans hd

/-- The parser comes exactly as deep as the derivation of the tokens that it accepts. -/
theorem Derives.deepest_descent {n : Nat} {tokens : List Token} {tree : Tree} {limit : Int64}
    (h : Derives .expression n tokens tree) (hp : parse limit tokens = .ok tree) :
    (descent limit tokens).deepest = n := by
  have hf := h.follows_descent limit
  rw [← result_descent] at hp
  generalize descent limit tokens = d at hf hp
  cases hf with
  | onward hb hg =>
    rw [Descent.deepest, Descent.still, List.append_nil]
    exact hb
  | refused hle hb hg => cases hp

/-- No level of the descent is deeper than the tree by more than one. -/
theorem Derives.levels_descent_le {n : Nat} {tokens : List Token} {tree : Tree} (limit : Int64)
    (h : Derives .expression n tokens tree) :
    ∀ level ∈ (descent limit tokens).levels, level ≤ tree.nesting + 1 := by
  have hle : n ≤ tree.nesting + 1 := h.levels_le
  have hf := h.follows_descent limit
  generalize descent limit tokens = d at hf
  intro level hlevel
  cases hf with
  | @onward levels hb hg =>
    rw [Descent.still, List.append_nil] at hlevel
    have := (Descent.le_foldl_max 0 levels).2 level hlevel
    omega
  | refused hle' hb hg =>
    have := hb level hlevel
    omega

/-- The tokens of an expression are parsed as its tree if all levels are within the guard, and
refused for their depth otherwise. -/
private theorem Derives.parse_cases {n : Nat} {tokens : List Token} {tree : Tree} (limit : Int64)
    (h : Derives .expression n tokens tree) :
    (parse limit tokens = .ok tree ∧
      ∀ level ∈ (descent limit tokens).levels, (level : Int) ≤ (2 * limit + 2).toInt) ∨
    (∃ offset, parse limit tokens = .error (.error (.tooDeep limit offset))) ∧
      ∃ level ∈ (descent limit tokens).levels, (2 * limit + 2).toInt < level := by
  have hf := h.follows_descent limit
  rw [← result_descent]
  generalize descent limit tokens = d at hf
  cases hf with
  | onward hb hg =>
    rw [Descent.still, List.append_nil]
    exact .inl ⟨rfl, hg⟩
  | @refused levels offset hle hb hg => exact .inr ⟨⟨offset, rfl⟩, hg⟩

private theorem Derives.parse_eq_ok_iff_levels {n : Nat} {tokens : List Token} {tree : Tree}
    (limit : Int64) (h : Derives .expression n tokens tree) :
    parse limit tokens = .ok tree ↔
      ∀ level ∈ (descent limit tokens).levels, (level : Int) ≤ (2 * limit + 2).toInt := by
  rcases h.parse_cases limit with ⟨hp, hg⟩ | ⟨⟨offset, hp⟩, level, hmem, hlt⟩
  · exact ⟨fun _ ↦ hg, fun _ ↦ hp⟩
  · constructor
    · intro hok
      rw [hp] at hok
      cases hok
    · intro hall
      have := hall level hmem
      omega

private theorem Derives.parse_of_nesting_le {limit : Int64} {n : Nat} {tokens : List Token}
    {tree : Tree}
    (h : Derives .expression n tokens tree) (hmax : 2 * limit.toInt + 2 < 0x8000000000000000)
    (hn : (tree.nesting : Int) ≤ limit.toInt) : parse limit tokens = .ok tree := by
  rw [h.parse_eq_ok_iff_levels limit, toInt_guard_of_lt (by omega) hmax]
  intro level hlevel
  have := h.levels_descent_le limit level hlevel
  omega

/-! ### Trees whose verbs have their forms -/

/-- Every verb of a tree has the form in which it is used, and no operand is missing. -/
def Formed : Tree → Prop
  | .literal _ _ => True
  | .monad mark right _ => (Verb.monadic? mark).isSome ∧ right.Formed
  | .dyad left mark right _ => (Verb.dyadic? mark).isSome ∧ left.Formed ∧ right.Formed
  | .paren inner _ => inner.Formed
  | .hole => False

/-- A tree whose verbs have their forms has an expression. -/
private theorem Formed.exists_erased {t : Tree} (h : t.Formed) : ∃ e, t.erased = .ok e := by
  induction t with
  | literal value offset => exact ⟨.noun value, rfl⟩
  | hole => exact h.elim
  | paren inner offset ih => exact ih h
  | monad mark right offset ih =>
    obtain ⟨r, hr⟩ := ih h.2
    exact ⟨_, erased_monad_eq_ok_iff.mpr ⟨r, hr, h.1, rfl⟩⟩
  | dyad left mark right offset ihl ihr =>
    obtain ⟨l, hl⟩ := ihl h.2.1
    obtain ⟨r, hr⟩ := ihr h.2.2
    exact ⟨_, erased_dyad_eq_ok_iff.mpr ⟨l, r, hl, hr, h.1, rfl⟩⟩

/-- A tree whose verbs have their forms is refused by the resolver for its depth only. -/
private theorem Formed.errorKind_of_resolve {t : Tree} (h : t.Formed) {c : Context}
    {x : ResolveError}
    (hx : (t.resolve c).1 = .error x) : x.errorKind = .value .recursionLimitExceeded := by
  induction t generalizing c with
  | literal value offset => cases hx
  | hole => exact h.elim
  | paren inner offset ih =>
    rw [resolve] at hx
    rcases deeper_eq_error hx with rfl | ⟨c', hc⟩
    · rfl
    · exact ih h hc
  | monad mark right offset ih =>
    rcases resolve_monad_eq_error hx with rfl | ⟨c', hr⟩ | ⟨hm, -⟩
    · rfl
    · exact ih h.2 hr
    · exact absurd h.1 hm
  | dyad left mark right offset ihl ihr =>
    rcases resolve_dyad_eq_error hx with rfl | ⟨c', hr⟩ | ⟨c', hl⟩ | ⟨hm, -⟩
    · rfl
    · exact ihr h.2.2 hr
    · exact ihl h.2.1 hl
    · exact absurd h.1 hm

end Tree

/-! ### Runs -/

namespace Settings

variable {s : Settings} {source : Text} {n : Nat} {tree : Tree}

/-- A run ends in an error for the depth, found by the parser or by the resolver. -/
def EndsTooDeep (s : Settings) (source : Text) : Prop :=
  ∃ x, (s.run source).result = .error (.error x) ∧ x.sort.2 = .value .recursionLimitExceeded

/-- A source that is read does not end in an error for the depth. -/
private theorem Reads.not_endsTooDeep {e : Expr} (h : s.Reads source e) :
    ¬ s.EndsTooDeep source := by
  rintro ⟨x, hx, hkind⟩
  rw [run_of_reads h] at hx
  cases hv : e.value s.maxElements with
  | ok a => rw [hv] at hx; cases hx
  | error y =>
    cases y with
    | fault f => rw [hv] at hx; cases hx
    | error y =>
      rw [hv] at hx
      cases hx
      obtain ⟨z, rfl, hmem⟩ := h.formed.ofVerb hv
      have hz : z.kind = .recursionLimitExceeded := ErrorKind.value.inj hkind
      rw [hz] at hmem
      revert hmem
      decide

private theorem exists_reads_of_nesting_le (hmax : 2 * s.maxDepth.toInt + 2 < 0x8000000000000000)
    (hs : (Token.scan source).error = none)
    (hd : Tree.Derives .expression n (Token.scan source).tokens tree) (hf : tree.Formed)
    (hn : (tree.nesting : Int) ≤ s.maxDepth.toInt) : ∃ e, s.Reads source e := by
  obtain ⟨e, he⟩ := hf.exists_erased
  exact ⟨e, hs, tree, hd.parse_of_nesting_le hmax hn, resolve_start_eq_ok_iff.mpr ⟨hn, he⟩⟩

/-- A source with a tree beyond the limit of depth whose verbs have their forms ends in an error for
the depth. -/
private theorem endsTooDeep_of_lt_nesting (hs : (Token.scan source).error = none)
    (hd : Tree.Derives .expression n (Token.scan source).tokens tree) (hf : tree.Formed)
    (hn : s.maxDepth.toInt < tree.nesting) : s.EndsTooDeep source := by
  have hends := s.ends_run source
  unfold EndsTooDeep
  generalize (s.run source).result = r at hends
  cases hends with
  | @tokenize x hx => rw [hs] at hx; cases hx
  | @parse x _ hp =>
    rcases hd.parse_cases s.maxDepth with ⟨hok, -⟩ | ⟨⟨offset, hdeep⟩, -⟩
    · rw [hp] at hok
      cases hok
    · rw [hp] at hdeep
      cases hdeep
      exact ⟨_, rfl, rfl⟩
  | @semantic tree' x _ hp hr =>
    rcases hd.parse_cases s.maxDepth with ⟨hok, -⟩ | ⟨⟨offset, hdeep⟩, -⟩
    · rw [hp] at hok
      cases hok
      exact ⟨_, rfl, hf.errorKind_of_resolve hr⟩
    · rw [hp] at hdeep
      cases hdeep
  | @value e he =>
    obtain ⟨-, m, tree', hd', -, hn', -⟩ := reads_iff.mp he
    obtain ⟨-, rfl⟩ := hd.unique hd'
    omega

/-- While the guard is a 64-bit integer, a source whose verbs have their forms ends in an error for
the depth exactly if its tree is deeper than the limit. -/
theorem endsTooDeep_iff (hmax : 2 * s.maxDepth.toInt + 2 < 0x8000000000000000)
    (hs : (Token.scan source).error = none)
    (hd : Tree.Derives .expression n (Token.scan source).tokens tree) (hf : tree.Formed) :
    s.EndsTooDeep source ↔ s.maxDepth.toInt < tree.nesting := by
  constructor
  · intro hdeep
    by_contra hn
    obtain ⟨e, he⟩ := exists_reads_of_nesting_le hmax hs hd hf (by omega)
    exact he.not_endsTooDeep hdeep
  · exact endsTooDeep_of_lt_nesting hs hd hf

end Settings

/-- The guard of the parser refuses no expression that the resolver accepts for its depth. -/
theorem guard_admits_resolvable :
    (∀ limit tokens, (Tree.descent limit tokens).result = Tree.parse limit tokens) ∧
    (∀ limit n tokens tree, Tree.Derives .expression n tokens tree →
      (∀ level ∈ (Tree.descent limit tokens).levels, level ≤ tree.nesting + 1) ∧
      (Tree.parse limit tokens = .ok tree ↔
        ∀ level ∈ (Tree.descent limit tokens).levels, (level : Int) ≤ (2 * limit + 2).toInt) ∧
      (2 * limit.toInt + 2 < 0x8000000000000000 → ∀ l offset,
        Tree.parse limit tokens = .error (.error (.tooDeep l offset)) →
          limit.toInt < tree.nesting)) ∧
    ∀ (s : Settings) (source : Text) (n : Nat) (tree : Tree),
      2 * s.maxDepth.toInt + 2 < 0x8000000000000000 → (Token.scan source).error = none →
      Tree.Derives .expression n (Token.scan source).tokens tree → tree.Formed →
        (s.EndsTooDeep source ↔ s.maxDepth.toInt < tree.nesting) := by
  refine ⟨Tree.result_descent, ?_, fun s source n tree ↦ Settings.endsTooDeep_iff⟩
  intro limit n tokens tree h
  refine ⟨h.levels_descent_le limit, h.parse_eq_ok_iff_levels limit, fun hmax l offset hp ↦ ?_⟩
  by_contra hn
  rw [h.parse_of_nesting_le hmax (by omega)] at hp
  cases hp

/-- Under a limit of one the source `((1))` is two deep: its three levels are within the guard of
the parser, and the resolver refuses it. -/
theorem guard_admits_resolvable_parentheses :
    (∀ level ∈ (Tree.descent 1 (Token.scan (Text.ofString "((1))")).tokens).levels, level ≤ 3) ∧
    ({ depthLimit := 1 } : Settings).EndsTooDeep (Text.ofString "((1))") ∧
    ¬ ({ depthLimit := 2 } : Settings).EndsTooDeep (Text.ofString "((1))") := by
  have hs : (Token.scan (Text.ofString "((1))")).error = none := rfl
  have hd : Tree.Derives .expression 3 (Token.scan (Text.ofString "((1))")).tokens
      (.paren (.paren (.literal (.scalar 1) 2) 1) 0) :=
    .single (.paren rfl rfl (.single (.paren rfl rfl (.single (.literal (.inl rfl) rfl)))))
  obtain ⟨-, htokens, hsource⟩ := guard_admits_resolvable
  refine ⟨(htokens 1 3 _ _ hd).1, ?_, ?_⟩
  · exact (hsource _ _ 3 _ (by decide) hs hd trivial).mpr (by decide)
  · exact mt (hsource _ _ 3 _ (by decide) hs hd trivial).mp (by decide)

end Ravel
