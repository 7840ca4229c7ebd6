import Mathlib.Data.List.Forall2
import Ravel.Proofs.Spelling

/-!
# What a run does not see

The parser looks at the kind of a token, at its first byte and at its words (`Token.sense`), and the
places of tokens only come back in trees and in errors. Tokens of the same senses are therefore
parsed alike but for places (`Tree.parse_congr`), a tree is resolved alike without its places
(`Tree.resolve_bare`), and so sources with tokens of the same senses come to the same noun, or to
errors of the same kind at the same stage (`Settings.outcome_congr`).
-/

namespace Ravel

/-- What the parser sees of a token: its kind, its first byte, and its words. -/
def Token.sense (t : Token) : TokenKind × Option UInt8 × List Text :=
  (t.kind, t.text.head?, t.text.words)

private theorem Noun.ofLiteral_congr {s t : Text} (h : s.words = t.words) :
    ofLiteral s = ofLiteral t := by
  unfold ofLiteral
  rw [h]

/-- Two results that agree as far as their values and their errors are looked at. -/
inductive AgreeOn {ε δ α β : Type} (f : α → β) (g : ε → δ) : Except ε α → Except ε α → Prop where
  | ok {a b : α} (h : f a = f b) : AgreeOn f g (.ok a) (.ok b)
  | error {x y : ε} (h : g x = g y) : AgreeOn f g (.error x) (.error y)

private theorem agreeOn_of_eq {ε δ α β : Type} {f : α → β} {g : ε → δ} {r r' : Except ε α}
    (h : (r.map f).mapError g = (r'.map f).mapError g) : AgreeOn f g r r' := by
  cases r with
  | ok a =>
    cases r' with
    | ok b => exact .ok (Except.ok.inj h)
    | error y => cases h
  | error x =>
    cases r' with
    | ok b => cases h
    | error y => exact .error (Except.error.inj h)

/-! ### Kinds of errors -/

/-- The kinds of errors of all stages. -/
inductive ErrorKind where
  | scan (kind : ScanError.Kind)
  | parse (kind : ParseError.Kind)
  | form (kind : SemanticError.Kind)
  | value (kind : ValueError.Kind)
  | hole
  deriving DecidableEq, Repr

/-- The stages of a run. -/
inductive Stage where
  | tokenize
  | parse
  | semantic
  | eval
  deriving DecidableEq, Repr

/-- The kind of an error in the order of tokens, which may be nested too deeply. -/
def ParseError.errorKind : ParseError → ErrorKind
  | .misplaced kind _ => .parse kind
  | .tooDeep limit offset => .value (ValueError.tooDeep limit (some offset)).kind

/-- The kind of an error of a tree. -/
def ResolveError.errorKind : ResolveError → ErrorKind
  | .form e => .form e.kind
  | .depth e => .value e.kind
  | .hole => .hole

/-- The kind of an error of an evaluation. -/
def EvalError.errorKind : EvalError → ErrorKind
  | .value e => .value e.kind
  | .form e => .form e.kind

/-- The stage that an error ended, and the kind of the error. -/
def StageError.sort : StageError → Stage × ErrorKind
  | .tokenize e => (.tokenize, .scan e.kind)
  | .parse e => (.parse, e.errorKind)
  | .semantic e => (.semantic, e.errorKind)
  | .eval e => (.eval, e.errorKind)

namespace Tree

/-! ### Parsing -/

/-- Two frames that are the same but for places. -/
inductive Frame.Alike : Frame → Frame → Prop where
  | monad (mark : Option UInt8) (offset offset' : Int) :
      Alike (.monad mark offset) (.monad mark offset')
  | dyad {left left' : Tree} (h : left.bare = left'.bare) (mark : Option UInt8)
      (offset offset' : Int) : Alike (.dyad left mark offset) (.dyad left' mark offset')
  | paren (opening opening' : Token) : Alike (.paren opening) (.paren opening')

/-- Two outcomes of closing verbs that are the same but for places. -/
inductive ClosesAlike :
    Except Fault (List Frame × Tree) → Except Fault (List Frame × Tree) → Prop where
  | fault (f : Fault) : ClosesAlike (.error f) (.error f)
  | ok {frames frames' : List Frame} {t t' : Tree} (hf : List.Forall₂ Frame.Alike frames frames')
      (ht : t.bare = t'.bare) : ClosesAlike (.ok (frames, t)) (.ok (frames', t'))

/-- The outcome of a parse without places: the tree, or the kind of the error. -/
def unplaced (r : Except (Halt ParseError) Tree) : Except (Halt ErrorKind) Tree :=
  (r.map bare).mapError (Halt.map ParseError.errorKind)

variable {limit : Int64} {stop stop' : Int} {frames frames' : List Frame} {t t' : Tree}
  {term term' : Option Tree} {token token' : Token} {rest rest' : List Token}

private theorem closeMonads_alike (hf : List.Forall₂ Frame.Alike frames frames')
    (ht : t.bare = t'.bare) :
    ClosesAlike (closeMonads frames t) (closeMonads frames' t') := by
  induction hf generalizing t t' with
  | nil => exact .ok .nil ht
  | cons hframe hrest ih =>
    cases hframe with
    | monad mark offset offset' =>
      cases mark with
      | none => exact .fault noMark
      | some mark =>
        apply ih
        rw [bare, bare, ht]
    | dyad h mark offset offset' => exact .ok (.cons (.dyad h mark offset offset') hrest) ht
    | paren opening opening' => exact .ok (.cons (.paren opening opening') hrest) ht

private theorem closeDyads_alike (hf : List.Forall₂ Frame.Alike frames frames')
    (ht : t.bare = t'.bare) :
    ClosesAlike (closeDyads frames t) (closeDyads frames' t') := by
  induction hf generalizing t t' with
  | nil => exact .ok .nil ht
  | cons hframe hrest ih =>
    cases hframe with
    | dyad h mark offset offset' =>
      cases mark with
      | none => exact .fault noMark
      | some mark =>
        apply ih
        rw [bare, bare, h, ht]
    | monad mark offset offset' => exact .ok (.cons (.monad mark offset offset') hrest) ht
    | paren opening opening' => exact .ok (.cons (.paren opening opening') hrest) ht

private theorem unplaced_unexpected (hk : token.kind = token'.kind) :
    unplaced (.error (.error (.unexpected token))) =
      unplaced (.error (.error (.unexpected token'))) := by
  simp [unplaced, ParseError.unexpected, ParseError.errorKind, Except.map, Except.mapError,
    Halt.map, hk]

/-- The end of a parse does not see places. -/
private theorem finish_congr (hk : token.kind = token'.kind)
    (hf : List.Forall₂ Frame.Alike frames frames') (ht : term.map bare = term'.map bare) :
    unplaced (finish token frames term) = unplaced (finish token' frames' term') := by
  have hunexpected := unplaced_unexpected hk
  cases term with
  | none =>
    cases term' with
    | none => exact hunexpected
    | some t' => cases ht
  | some t =>
    cases term' with
    | none => cases ht
    | some t' =>
      have hclose := closeDyads_alike hf (Option.some.inj ht)
      rw [finish, finish, ← hk]
      generalize closeDyads frames t = r at hclose
      generalize closeDyads frames' t' = r' at hclose
      cases hclose with
      | fault f => rfl
      | ok hinner hu =>
        cases hinner with
        | nil =>
          cases token.kind with
          | eof => exact congrArg Except.ok hu
          | rightParen => rfl
          | _ => exact hunexpected
        | cons hframe houter =>
          cases hframe with
          | monad mark offset offset' => exact hunexpected
          | dyad h mark offset offset' => exact hunexpected
          | paren opening opening' =>
            cases token.kind with
            | eof => rfl
            | _ => exact hunexpected

private theorem withinGuard_congr (hf : List.Forall₂ Frame.Alike frames frames') :
    withinGuard limit frames = withinGuard limit frames' := by
  rw [withinGuard, withinGuard, hf.length_eq]

/-- Two parses of the tokens to come are the same but for places, from frames and terms that are. -/
def ParsesAlike (limit : Int64) (stop stop' : Int) (rest rest' : List Token) : Prop :=
  ∀ frames frames' term term', List.Forall₂ Frame.Alike frames frames' →
    term.map bare = term'.map bare →
    unplaced (parseLoop limit stop frames term rest) =
      unplaced (parseLoop limit stop' frames' term' rest')

private theorem ParsesAlike.resume (hp : ParsesAlike limit stop stop' rest rest')
    {r r' : Except Fault (List Frame × Tree)} (h : ClosesAlike r r') :
    unplaced (resume limit stop rest r) = unplaced (resume limit stop' rest' r') := by
  cases h with
  | fault f => rfl
  | ok hf ht => exact hp _ _ _ _ hf (congrArg some ht)

private theorem ParsesAlike.push (hp : ParsesAlike limit stop stop' rest rest')
    (hf : List.Forall₂ Frame.Alike frames frames') {frame frame' : Frame}
    (h : Frame.Alike frame frame') (offset offset' : Int) :
    unplaced (if withinGuard limit (frame :: frames) then
        parseLoop limit stop (frame :: frames) none rest
      else .error (.error (.tooDeep limit offset))) =
    unplaced (if withinGuard limit (frame' :: frames') then
        parseLoop limit stop' (frame' :: frames') none rest'
      else .error (.error (.tooDeep limit offset'))) := by
  rw [withinGuard_congr (.cons h hf)]
  split
  · exact hp _ _ _ _ (.cons h hf) rfl
  · rfl

private theorem parseLoop_badLiteral (hk : token.kind = .number ∨ token.kind = .vector)
    {x : ValueError} (ha : Noun.ofLiteral token.text = .error x) :
    parseLoop limit stop frames none (token :: rest) = .error (.error (.unexpected token)) := by
  rcases hk with hk | hk <;> simp only [parseLoop, hk, ha]

/-- Where a term is needed, the parser sees the kind, the first byte and the words of a token. -/
private theorem ParsesAlike.cons_none (hp : ParsesAlike limit stop stop' rest rest')
    (hs : token'.sense = token.sense) (hf : List.Forall₂ Frame.Alike frames frames') :
    unplaced (parseLoop limit stop frames none (token :: rest)) =
      unplaced (parseLoop limit stop' frames' none (token' :: rest')) := by
  simp only [Token.sense, Prod.mk.injEq] at hs
  obtain ⟨hkind, hhead, hwords⟩ := hs
  have hliteral (hk : token.kind = .number ∨ token.kind = .vector) :
      unplaced (parseLoop limit stop frames none (token :: rest)) =
        unplaced (parseLoop limit stop' frames' none (token' :: rest')) := by
    have hk' : token'.kind = .number ∨ token'.kind = .vector := by rwa [hkind]
    have hnoun := Noun.ofLiteral_congr hwords
    cases ha : Noun.ofLiteral token.text with
    | ok a =>
      rw [parseLoop_literal hk ha, parseLoop_literal hk' (hnoun.trans ha)]
      exact hp.resume (closeMonads_alike hf rfl)
    | error x =>
      rw [parseLoop_badLiteral hk ha, parseLoop_badLiteral hk' (hnoun.trans ha)]
      exact unplaced_unexpected hkind.symm
  cases hk : token.kind with
  | number => exact hliteral (.inl hk)
  | vector => exact hliteral (.inr hk)
  | verb =>
    rw [parseLoop_monad hk, parseLoop_monad (hkind.trans hk), hhead]
    exact hp.push hf (.monad _ _ _) _ _
  | leftParen =>
    rw [parseLoop_opening hk, parseLoop_opening (hkind.trans hk)]
    exact hp.push hf (.paren _ _) _ _
  | _ =>
    simp only [parseLoop, hkind, hk]
    exact finish_congr hkind.symm hf rfl

/-- After a term, the parser sees the kind and the first byte of a token. -/
private theorem ParsesAlike.cons_some (hp : ParsesAlike limit stop stop' rest rest')
    (hs : token'.sense = token.sense) (hf : List.Forall₂ Frame.Alike frames frames')
    (ht : t.bare = t'.bare) :
    unplaced (parseLoop limit stop frames (some t) (token :: rest)) =
      unplaced (parseLoop limit stop' frames' (some t') (token' :: rest')) := by
  simp only [Token.sense, Prod.mk.injEq] at hs
  obtain ⟨hkind, hhead, -⟩ := hs
  have hfinish : unplaced (finish token frames (some t)) =
      unplaced (finish token' frames' (some t')) := finish_congr hkind.symm hf (congrArg some ht)
  cases hk : token.kind with
  | verb =>
    rw [parseLoop_dyad hk, parseLoop_dyad (hkind.trans hk), hhead]
    exact hp.push hf (.dyad ht _ _ _) _ _
  | rightParen =>
    -- the verbs close alike, and what is then on top of the frames decides what follows
    have hclose := closeDyads_alike hf ht
    generalize hr : closeDyads frames t = r at hclose
    generalize hr' : closeDyads frames' t' = r' at hclose
    cases hclose with
    | fault f => simp only [parseLoop, hkind, hk, hr, hr']
    | ok hinner hu =>
      cases hinner with
      | nil => simpa only [parseLoop, hkind, hk, hr, hr'] using hfinish
      | cons hframe houter =>
        cases hframe with
        | paren opening opening' =>
          rw [parseLoop_closing hk hr, parseLoop_closing (hkind.trans hk) hr']
          exact hp.resume (closeMonads_alike houter (by rw [bare, bare, hu]))
        | monad mark offset offset' => simpa only [parseLoop, hkind, hk, hr, hr'] using hfinish
        | dyad h mark offset offset' => simpa only [parseLoop, hkind, hk, hr, hr'] using hfinish
  | _ => simpa only [parseLoop, hkind, hk] using hfinish

/-- A parse does not see places: tokens of the same senses come to the same tree, or to errors of
the same kind. -/
private theorem parsesAlike_of_sense (hs : rest.map Token.sense = rest'.map Token.sense) :
    ParsesAlike limit stop stop' rest rest' := by
  induction rest generalizing rest' with
  | nil =>
    rw [List.map_nil, eq_comm, List.map_eq_nil_iff] at hs
    subst hs
    exact fun _ _ _ _ hf ht ↦ finish_congr rfl hf ht
  | cons token rest ih =>
    rw [List.map_cons, eq_comm, List.map_eq_cons_iff] at hs
    obtain ⟨token', rest', rfl, hsense, hs⟩ := hs
    have hp := ih hs.symm
    intro frames frames' term term' hf ht
    cases term with
    | none =>
      obtain rfl : term' = none := by simpa using ht.symm
      exact hp.cons_none hsense hf
    | some t =>
      obtain ⟨t', rfl, hbare⟩ := Option.map_eq_some_iff.mp ht.symm
      exact hp.cons_some hsense hf hbare.symm

/-- Tokens that differ in places only are parsed as the same up to places. -/
theorem parse_congr (limit : Int64) {tokens tokens' : List Token}
    (hs : tokens.map Token.sense = tokens'.map Token.sense) :
    unplaced (parse limit tokens) = unplaced (parse limit tokens') := by
  unfold parse
  dsimp only
  split
  · exact parsesAlike_of_sense hs [] [] none none .nil rfl
  · rfl

/-! ### Resolving -/

/-- An error of a tree without its place. -/
def unplacedError : ResolveError → ResolveError
  | .form e => .form { e with offset := 0 }
  | e => e

/-- The end of a resolution without places. -/
def unplacedEnd (r : Except ResolveError Expr × Context) : Except ResolveError Expr × Context :=
  (r.1.mapError unplacedError, r.2)

private theorem deeper_unplaced (c : Context)
    (part : Context → Except ResolveError Expr × Context) :
    deeper c (fun c ↦ unplacedEnd (part c)) = unplacedEnd (deeper c part) := by
  unfold deeper
  cases c.enter with
  | error e => rfl
  | ok d => rfl

/-- Without its places a tree is resolved alike. -/
theorem resolve_bare (t : Tree) (c : Context) : t.bare.resolve c = unplacedEnd (t.resolve c) := by
  induction t generalizing c with
  | literal value offset => rfl
  | hole => rfl
  | paren inner offset ih =>
    rw [bare, resolve, resolve, ← deeper_unplaced]
    congr 1
    funext c
    exact ih c
  | monad mark right offset ih =>
    rw [bare, resolve, resolve, ← deeper_unplaced]
    congr 1
    funext c
    rw [ih]
    rcases right.resolve c with ⟨_ | r, c⟩
    · rfl
    · simp only [unplacedEnd, Except.mapError]
      split <;> rfl
  | dyad left mark right offset ihl ihr =>
    rw [bare, resolve, resolve, ← deeper_unplaced]
    congr 1
    funext c
    rw [ihr]
    rcases right.resolve c with ⟨_ | r, c⟩
    · rfl
    · simp only [unplacedEnd, Except.mapError]
      rw [ihl]
      rcases left.resolve c with ⟨_ | l, c⟩
      · rfl
      · simp only [unplacedEnd, Except.mapError]
        split <;> rfl

private theorem errorKind_unplacedError (e : ResolveError) :
    (unplacedError e).errorKind = e.errorKind := by
  cases e <;> rfl

end Tree

/-! ### Running -/

/-- What the parser sees of a source: the senses of its tokens, or the kind of the error. -/
def Token.senses (source : Text) :
    Except ScanError.Kind (List (TokenKind × Option UInt8 × List Text)) :=
  ((tokenize source).map (List.map sense)).mapError ScanError.kind

namespace Settings

variable {s : Settings}

/-- What comes of a run, without places: a noun, a fault, or the stage and the kind of an error. -/
def outcome (s : Settings) (source : Text) : Except (Halt (Stage × ErrorKind)) Noun :=
  (s.run source).result.mapError (Halt.map StageError.sort)

/-- A run goes through its stages one after the other. -/
theorem run_result (s : Settings) (source : Text) :
    (s.run source).result =
      match Token.tokenize source with
      | .error e => .error (.error (.tokenize e))
      | .ok tokens =>
        match Tree.parse s.maxDepth tokens with
        | .error e => .error (e.map .parse)
        | .ok tree => (s.runTree tree).result := by
  unfold run runStages Token.tokenize
  rcases Token.scan source with ⟨tokens, _ | e⟩
  · dsimp only
    cases Tree.parse s.maxDepth tokens <;> rfl
  · rfl

/-- The last two stages do not see the places of a tree. -/
private theorem runTree_congr {tree tree' : Tree} (h : tree.bare = tree'.bare) :
    (s.runTree tree).result.mapError (Halt.map StageError.sort) =
      (s.runTree tree').result.mapError (Halt.map StageError.sort) := by
  have hends : Tree.unplacedEnd (tree.resolve (Context.start s.limits)) =
      Tree.unplacedEnd (tree'.resolve (Context.start s.limits)) := by
    rw [← Tree.resolve_bare, ← Tree.resolve_bare, h]
  unfold runTree
  generalize tree.resolve (Context.start s.limits) = r at hends ⊢
  generalize tree'.resolve (Context.start s.limits) = r' at hends ⊢
  obtain ⟨result, c⟩ := r
  obtain ⟨result', c'⟩ := r'
  obtain ⟨hresult, rfl⟩ := Prod.mk.inj hends
  have hagree : AgreeOn id Tree.unplacedError result result' := by
    apply agreeOn_of_eq
    rwa [Except.map_id, id, id]
  cases hagree with
  | @ok e e' h =>
    obtain rfl : e = e' := h
    rfl
  | error h =>
    have hkind := congrArg ResolveError.errorKind h
    rw [Tree.errorKind_unplacedError, Tree.errorKind_unplacedError] at hkind
    simp [Except.mapError, Halt.map, StageError.sort, hkind]

/-- Sources of the same senses come to the same noun or fault, or to errors of the same kind at the
same stage. -/
theorem outcome_congr {a b : Text} (h : Token.senses a = Token.senses b) (s : Settings) :
    s.outcome a = s.outcome b := by
  have htokens := agreeOn_of_eq h
  unfold outcome
  rw [run_result, run_result]
  generalize Token.tokenize a = r at htokens ⊢
  generalize Token.tokenize b = r' at htokens ⊢
  cases htokens with
  | error h => simp [Except.mapError, Halt.map, StageError.sort, h]
  | @ok tokens tokens' h =>
    have htree := agreeOn_of_eq (Tree.parse_congr s.maxDepth h)
    dsimp only
    generalize Tree.parse s.maxDepth tokens = r at htree ⊢
    generalize Tree.parse s.maxDepth tokens' = r' at htree ⊢
    cases htree with
    | ok h => exact runTree_congr h
    | @error x y h =>
      have hsort {x : Halt ParseError} : (x.map StageError.parse).map StageError.sort =
          (x.map ParseError.errorKind).map (Prod.mk .parse) := by
        cases x <;> rfl
      simp only [Except.mapError, hsort, h]

end Settings

end Ravel
