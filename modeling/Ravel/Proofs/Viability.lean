import Mathlib.Data.List.Induction
import Ravel.Proofs.Parser

/-!
# Where a parse goes wrong

Tokens are viable if some expression starts with them (`Tree.Viable`). A reader of tokens need only
know whether it has a term and which parentheses are open: with that much it gets over every
expression (`Tree.Derives.after_eq`), and the parser knows no less. The parser therefore stops at
the first token that makes the tokens read so far no start of an expression, and if there is none,
at the end of the input or at the innermost parenthesis that is open (`Tree.misplaced_located`).
-/

namespace Ravel.Tree

/-- Tokens that are an expression. -/
def Complete (ts : List Token) : Prop := ∃ n tree, Derives .expression n ts tree

/-- Tokens that some expression starts with. -/
def Viable (ts : List Token) : Prop := ∃ rest, Complete (ts ++ rest)

/-- A token that an expression can have: a verb with a mark, a literal that denotes a noun, or a
parenthesis. -/
inductive Usable (t : Token) : Prop where
  | verb (hk : t.kind = .verb) (ht : t.text ≠ [])
  | literal (hk : t.kind = .number ∨ t.kind = .vector) (ha : ∃ a, Noun.ofLiteral t.text = .ok a)
  | leftParen (hk : t.kind = .leftParen)
  | rightParen (hk : t.kind = .rightParen)

private theorem Viable.of_append {ts us : List Token} (h : Viable (ts ++ us)) : Viable ts := by
  obtain ⟨rest, hc⟩ := h
  exact ⟨us ++ rest, by rwa [← List.append_assoc]⟩

/-! ### Reading tokens -/

/-- What is to be known of tokens to read on: whether they end in a term, and the left parentheses
that are open, the innermost first. -/
structure Place where
  hasTerm : Bool
  opened : List Token
  deriving DecidableEq

namespace Place

/-- The place after one more token, if the token can stand there. -/
def next (p : Place) (t : Token) : Option Place :=
  match p.hasTerm, t.kind with
  | false, .verb => some p
  | false, .leftParen => some ⟨false, t :: p.opened⟩
  | false, .number | false, .vector => some ⟨true, p.opened⟩
  | true, .verb => some ⟨false, p.opened⟩
  | true, .rightParen =>
    match p.opened with
    | [] => none
    | _ :: opened => some ⟨true, opened⟩
  | _, _ => none

/-- The place after more tokens, if they can stand there. -/
def after (p : Place) (ts : List Token) : Option Place := ts.foldlM next p

/-- The place at the start of an expression. -/
def start : Place := ⟨false, []⟩

variable {p q : Place} {t : Token} {ts us : List Token}

private theorem after_append (p : Place) (ts us : List Token) :
    p.after (ts ++ us) = (p.after ts).bind (·.after us) :=
  List.foldlM_append

private theorem after_concat (p : Place) (ts : List Token) (t : Token) :
    p.after (ts ++ [t]) = (p.after ts).bind (·.next t) := by
  rw [after_append]
  congr 1
  funext q
  simp [after]

private theorem after_cons (p : Place) (t : Token) (ts : List Token) :
    p.after (t :: ts) = (p.next t).bind (·.after ts) := rfl

/-- What a token can do to a place: a verb or a left parenthesis needs a term, a literal is one, and
a right parenthesis closes the innermost left one. -/
private theorem next_cases (h : p.next t = some q) :
    (t.kind = .verb ∧ q = ⟨false, p.opened⟩) ∨ (t.kind = .leftParen ∧ q = ⟨false, t :: p.opened⟩) ∨
    ((t.kind = .number ∨ t.kind = .vector) ∧ q = ⟨true, p.opened⟩) ∨
    (t.kind = .rightParen ∧ q = ⟨true, p.opened.tail⟩) := by
  obtain ⟨hasTerm, opened⟩ := p
  cases hasTerm with
  | false => cases hk : t.kind <;> simp_all [next]
  | true =>
    cases hk : t.kind with
    | rightParen => cases opened <;> simp_all [next]
    | _ => simp_all [next]

end Place

open Place

/-- A phrase is read from a place where a term is needed to the same place with a term. -/
theorem Derives.after_eq {p : Phrase} {n : Nat} {ts : List Token} {t : Tree} (h : Derives p n ts t)
    (opened : List Token) : after ⟨false, opened⟩ ts = some ⟨true, opened⟩ := by
  induction h generalizing opened with
  | literal hk ha => rcases hk with hk | hk <;> simp [after, next, hk]
  | monad hk hm hr ih => simp [after_cons, next, hk, ih]
  | paren ho hc he ih => simp [after_cons, after_concat, next, ho, hc, ih]
  | single ht ih => exact ih opened
  | dyad hl hk hm hr ihl ihr => simp [after_append, after_cons, next, hk, ihl, ihr]

private theorem Complete.after_start {ts : List Token} (h : Complete ts) :
    start.after ts = some ⟨true, []⟩ := by
  obtain ⟨n, tree, hd⟩ := h
  exact hd.after_eq []

private theorem not_viable_of_after_eq_none {ts : List Token} (h : start.after ts = none) :
    ¬ Viable ts := by
  rintro ⟨rest, hc⟩
  have hread := hc.after_start
  rw [after_append, h] at hread
  cases hread

/-- The left parentheses of tokens that are not closed yet, the innermost first. -/
def unclosed (ts : List Token) : List Token :=
  ts.foldl (fun opened t ↦
    match t.kind with
    | .leftParen => t :: opened
    | .rightParen => opened.tail
    | _ => opened) []

/-- The parentheses that are open at a place are those that are not closed. -/
private theorem unclosed_eq_of_after {ts : List Token} {p : Place} (h : start.after ts = some p) :
    unclosed ts = p.opened := by
  induction ts using List.reverseRecOn generalizing p with
  | nil =>
    cases h
    rfl
  | append_singleton ts t ih =>
    rw [after_concat, Option.bind_eq_some_iff] at h
    obtain ⟨q, hq, ht⟩ := h
    have hopened := ih hq
    unfold unclosed at hopened ⊢
    rw [List.foldl_append, hopened]
    rcases next_cases ht with ⟨hk, rfl⟩ | ⟨hk, rfl⟩ | ⟨hk | hk, rfl⟩ | ⟨hk, rfl⟩ <;> simp [hk]

/-- Tokens after which a term is needed. -/
def NeedsTerm (ts : List Token) : Prop :=
  ts = [] ∨ ∃ t ∈ ts.getLast?, t.kind = .verb ∨ t.kind = .leftParen

/-- A term is needed at the start and after a verb or a left parenthesis, and nowhere else. -/
private theorem needsTerm_iff_of_after {ts : List Token} {p : Place} (h : start.after ts = some p) :
    NeedsTerm ts ↔ p.hasTerm = false := by
  unfold NeedsTerm
  rcases List.eq_nil_or_concat ts with rfl | ⟨us, t, rfl⟩
  · cases h
    simp [start]
  · rw [List.concat_eq_append] at h ⊢
    rw [after_concat, Option.bind_eq_some_iff] at h
    obtain ⟨q, -, ht⟩ := h
    rcases next_cases ht with ⟨hk, rfl⟩ | ⟨hk, rfl⟩ | ⟨hk | hk, rfl⟩ | ⟨hk, rfl⟩ <;> simp [hk]

/-! ### What the parser has open -/

/-- The left parentheses among frames, the innermost first. -/
def opens (frames : List Frame) : List Token :=
  frames.filterMap fun
    | .paren opening => some opening
    | _ => none

section Frames

variable {guard : Int} {before ts : List Token} {frames inner : List Frame} {term : Option Tree}
  {t u : Tree}

/-- Closing verbs that wait for an expression leaves the parentheses. -/
theorem opens_of_closeDyads (h : closeDyads frames t = .ok (inner, u)) :
    opens inner = opens frames := by
  fun_induction closeDyads frames t with
  | case1 frames t left mark offset ih => simpa [opens] using ih h
  | case2 => cases h
  | case3 frames t => cases h; rfl

/-- Once the verbs that wait for an expression are closed, nothing is open or a parenthesis is. -/
private theorem Pending.top_of_closeDyads (hp : Pending guard frames ts) (hb : NoMonadOnTop frames)
    (h : closeDyads frames t = .ok (inner, u)) :
    inner = [] ∨ ∃ opening outer, inner = .paren opening :: outer := by
  induction hp generalizing t with
  | nil =>
    cases h
    exact .inl rfl
  | monad hp hk ih => exact absurd rfl (hb _ _)
  | paren hp hk ih =>
    cases h
    exact .inr ⟨_, _, rfl⟩
  | @dyad v frames ts us n l hp hbl hl hg hk ih =>
    cases hm : v.text.head? with
    | none => rw [hm, closeDyads] at h; cases h
    | some mark =>
      rw [hm, closeDyads] at h
      exact ih hbl h

/-- The tokens that frames were read from need a term, inside the parentheses of the frames. -/
private theorem Pending.after_start (h : Pending guard frames ts) :
    start.after ts = some ⟨false, opens frames⟩ := by
  induction h with
  | nil => rfl
  | monad h hk ih => simp [after_concat, ih, next, hk, opens]
  | paren h hk ih => simp [after_concat, ih, next, hk, opens]
  | @dyad v frames ts us n l h hb hl hg hk ih =>
    rw [after_concat, after_append, ih, Option.bind_some, hl.after_eq]
    simp [next, hk, opens]

private theorem Consistent.after_start (h : Consistent guard before frames term) :
    start.after before = some ⟨term.isSome, opens frames⟩ := by
  cases term with
  | none => exact h.1.after_start
  | some t =>
    obtain ⟨ts, us, n, rfl, hp, -, ht, -⟩ := h
    rw [after_append, hp.after_start]
    exact ht.after_eq (opens frames)

/-- A term that no verb is waiting for stands at the start or after the innermost parenthesis. -/
private theorem Consistent.closeDyads_eq (h : Consistent guard before frames (some t))
    (hf : ∀ f ∈ frames, f.isMarked) :
    (opens frames = [] ∧ ∃ u, closeDyads frames t = .ok ([], u)) ∨
      ∃ opening outer u, opens frames = opening :: opens outer ∧ (∀ f ∈ outer, f.isMarked) ∧
        closeDyads frames t = .ok (.paren opening :: outer, u) := by
  obtain ⟨ts, us, n, rfl, hp, hb, -, -⟩ := h
  obtain ⟨inner, u, hd, hi⟩ := closeDyads_of_isMarked hf t
  have ho := opens_of_closeDyads hd
  rcases hp.top_of_closeDyads hb hd with rfl | ⟨opening, outer, rfl⟩
  · exact .inl ⟨ho.symm, u, hd⟩
  · exact .inr ⟨opening, outer, u, ho.symm, fun f hf ↦ hi f (List.mem_cons_of_mem _ hf), hd⟩

private theorem Consistent.complete (h : Consistent guard before frames (some t))
    (hd : closeDyads frames t = .ok ([], u)) : Complete before := by
  obtain ⟨ts, us, n, rfl, hp, hb, ht, hg⟩ := h
  obtain ⟨ts', us', m, he, hp', ht', -⟩ := closeDyads_consistent hp hb (.single ht) (by omega) hd
  cases hp'
  exact ⟨m, u, by rwa [he]⟩

private theorem Consistent.not_complete (h : Consistent guard before frames term)
    (ht : term.isSome = false ∨ opens frames ≠ []) : ¬ Complete before := by
  intro hc
  have hread := hc.after_start
  rw [h.after_start] at hread
  simp_all

end Frames

/-! ### What the parser has read is viable -/

section Steps

variable {limit : Int64} {before rest : List Token} {frames frames' : List Frame}
  {term term' : Option Tree} {t : Tree} {token : Token}

private theorem exists_step_literal (hf : ∀ f ∈ frames, f.isMarked)
    (hk : token.kind = .number ∨ token.kind = .vector) {a : Noun}
    (ha : Noun.ofLiteral token.text = .ok a) :
    ∃ inner u, Step limit token frames none inner (some u) := by
  obtain ⟨inner, u, hm, -⟩ := closeMonads_of_isMarked hf (.literal a token.offset)
  exact ⟨inner, u, .literal hk ha hm⟩

private theorem exists_step_closing {guard : Int} (hc : Consistent guard before frames (some t))
    (hf : ∀ f ∈ frames, f.isMarked) (hk : token.kind = .rightParen) (ho : opens frames ≠ []) :
    ∃ inner u, Step limit token frames (some t) inner (some u) := by
  rcases hc.closeDyads_eq hf with ⟨hn, -⟩ | ⟨opening, outer, e, -, hm, hd⟩
  · exact absurd hn ho
  · obtain ⟨inner, u, hm, -⟩ := closeMonads_of_isMarked hm (.paren e opening.offset)
    exact ⟨inner, u, .closing hk hd hm⟩

private theorem Step.next_eq (hs : Step limit token frames term frames' term')
    (hc : Consistent (2 * limit + 2).toInt before frames term) :
    next ⟨term.isSome, opens frames⟩ token = some ⟨term'.isSome, opens frames'⟩ := by
  have h := (hs.consistent hc).after_start
  rwa [after_concat, hc.after_start] at h

/-- Tokens that end in a term become an expression by right parentheses, one for each parenthesis
that is open. -/
private theorem Consistent.viable_of_term
    (hc : Consistent (2 * limit + 2).toInt before frames (some t))
    (hf : ∀ f ∈ frames, f.isMarked) : Viable before := by
  induction ho : opens frames generalizing before frames t with
  | nil =>
    rcases hc.closeDyads_eq hf with ⟨-, u, hd⟩ | ⟨opening, outer, u, hcons, -⟩
    · exact ⟨[], by simpa using hc.complete hd⟩
    · rw [ho] at hcons
      cases hcons
  | cons opening opened ih =>
    obtain ⟨inner, u, hs⟩ :
        ∃ inner u, Step limit ⟨.rightParen, 0, []⟩ frames (some t) inner (some u) :=
      exists_step_closing hc hf rfl (by simp [ho])
    -- the step goes to the same place as the token, which closes the innermost parenthesis
    have hinner : opens inner = opened := by
      have hn := hs.next_eq hc
      rw [ho] at hn
      cases hn
      rfl
    exact (ih (hs.consistent hc) (hs.isMarked nofun hf) hinner).of_append

private theorem Consistent.viable (hc : Consistent (2 * limit + 2).toInt before frames term)
    (hf : ∀ f ∈ frames, f.isMarked) : Viable before := by
  cases term with
  | some t => exact hc.viable_of_term hf
  | none =>
    obtain ⟨inner, u, hs⟩ : ∃ inner u, Step limit ⟨.number, 0, [49]⟩ frames none inner (some u) :=
      exists_step_literal hf (.inl rfl) rfl
    exact ((hs.consistent hc).viable_of_term (hs.isMarked nofun hf)).of_append

/-! ### Where the parser stops -/

/-- The parser goes on after a step that can be made. -/
theorem Step.parseLoop_eq (h : Step limit token frames term frames' term') (stop : Int) :
    parseLoop limit stop frames term (token :: rest) =
      parseLoop limit stop frames' term' rest := by
  cases h with
  | monad hk hg => rw [parseLoop_monad hk, if_pos hg]
  | opening hk hg => rw [parseLoop_opening hk, if_pos hg]
  | dyad hk hg => rw [parseLoop_dyad hk, if_pos hg]
  | closing hk hd hm => rw [parseLoop_closing hk hd, hm, resume]
  | literal hk ha hm => rw [parseLoop_literal hk ha, hm, resume]

/-- What the parser does at a token that an expression can have: a step, or it meets its guard, or
it stops since the token cannot stand there. -/
inductive Meets (limit : Int64) (stop : Int) (frames : List Frame) (term : Option Tree)
    (token : Token) (rest : List Token) : Prop where
  | step {frames' : List Frame} {term' : Option Tree}
      (hs : Step limit token frames term frames' term')
  | guard {offset : Int} (h : parseLoop limit stop frames term (token :: rest) =
      .error (.error (.tooDeep limit offset)))
  | stops (hn : next ⟨term.isSome, opens frames⟩ token = none)
      (h : parseLoop limit stop frames term (token :: rest) = finish token frames term)

/-- At a token that an expression can have the parser takes a step, meets its guard or stops. -/
theorem Usable.meets (hu : Usable token) (stop : Int)
    (hc : Consistent (2 * limit + 2).toInt before frames term) (hf : ∀ f ∈ frames, f.isMarked) :
    Meets limit stop frames term token rest := by
  cases term with
  | none =>
    cases hu with
    | verb hk ht =>
      by_cases hg : withinGuard limit (.monad token.text.head? token.offset :: frames)
      · exact .step (.monad hk hg)
      · exact .guard (by rw [parseLoop_monad hk, if_neg hg])
    | literal hk ha =>
      obtain ⟨a, ha⟩ := ha
      obtain ⟨inner, u, hs⟩ := exists_step_literal hf hk ha
      exact .step hs
    | leftParen hk =>
      by_cases hg : withinGuard limit (.paren token :: frames)
      · exact .step (.opening hk hg)
      · exact .guard (by rw [parseLoop_opening hk, if_neg hg])
    | rightParen hk => exact .stops (by simp [next, hk]) (by simp only [parseLoop, hk])
  | some t =>
    cases hu with
    | verb hk ht =>
      by_cases hg : withinGuard limit (.dyad t token.text.head? token.offset :: frames)
      · exact .step (.dyad hk hg)
      · exact .guard (by rw [parseLoop_dyad hk, if_neg hg])
    | literal hk ha =>
      rcases hk with hk | hk <;> exact .stops (by simp [next, hk]) (by simp only [parseLoop, hk])
    | leftParen hk => exact .stops (by simp [next, hk]) (by simp only [parseLoop, hk])
    | rightParen hk =>
      by_cases ho : opens frames = []
      · rcases hc.closeDyads_eq hf with ⟨-, u, hd⟩ | ⟨opening, outer, u, hcons, -⟩
        · exact .stops (by simp [next, hk, ho]) (by simp only [parseLoop, hk, hd])
        · rw [ho] at hcons
          cases hcons
      · obtain ⟨inner, u, hs⟩ := exists_step_closing hc hf hk ho
        exact .step hs

/-- A token is rejected after tokens that are viable, since they are not with it. A right
parenthesis after an expression is unmatched. -/
structure Rejects (before : List Token) (token : Token) (kind : ParseError.Kind) : Prop where
  viable : Viable before
  not_viable : ¬ Viable (before ++ [token])
  unmatched : token.kind = .rightParen → Complete before → kind = .unmatchedParenthesis
  unexpected : ¬ (token.kind = .rightParen ∧ Complete before) → kind = .unexpectedToken

/-- Tokens break off before they are an expression: the end of the input is blamed if a term is
needed, and else the innermost parenthesis that is not closed. -/
structure BreaksOff (ts : List Token) (token : Token) (kind : ParseError.Kind) : Prop where
  not_complete : ¬ Complete ts
  atEnd : NeedsTerm ts →
    kind = .unexpectedEndOfInput ∧ token = Token.endAt (Token.endOffset ts)
  unmatched : ¬ NeedsTerm ts →
    kind = .unmatchedParenthesis ∧ (unclosed ts).head? = some token

/-- Where the parser stops at a token, the token is rejected and blamed. -/
private theorem rejects_of_finish {kind : ParseError.Kind} {blamed : Token} (hu : Usable token)
    (hc : Consistent (2 * limit + 2).toInt before frames term) (hf : ∀ f ∈ frames, f.isMarked)
    (hn : next ⟨term.isSome, opens frames⟩ token = none)
    (h : finish token frames term = .error (.error (.misplaced kind blamed))) :
    blamed = token ∧ Rejects before token kind := by
  have hend : token.kind ≠ .eof := by
    intro hk
    cases hu <;> simp_all
  have hviable := hc.viable hf
  have hnot : ¬ Viable (before ++ [token]) := by
    apply not_viable_of_after_eq_none
    rw [after_concat, hc.after_start]
    exact hn
  have hunexpected (hx : ParseError.unexpected token = .misplaced kind blamed)
      (hp : ¬ (token.kind = .rightParen ∧ Complete before)) :
      blamed = token ∧ Rejects before token kind := by
    rw [ParseError.unexpected, if_neg hend] at hx
    cases hx
    exact ⟨rfl, hviable, hnot, fun hk hcomplete ↦ absurd ⟨hk, hcomplete⟩ hp, fun _ ↦ rfl⟩
  cases term with
  | none =>
    have hopen := hc.not_complete (.inl rfl)
    apply hunexpected (by simpa [finish] using h)
    exact fun hp ↦ hopen hp.2
  | some t =>
    rcases hc.closeDyads_eq hf with ⟨-, u, hd⟩ | ⟨opening, outer, u, ho, -, hd⟩
    · have hcomplete := hc.complete hd
      by_cases hk : token.kind = .rightParen
      · simp only [finish, hd, hk] at h
        cases h
        exact ⟨rfl, hviable, hnot, fun _ _ ↦ rfl, fun hp ↦ absurd ⟨hk, hcomplete⟩ hp⟩
      · refine hunexpected ?_ fun hp ↦ hk hp.1
        rw [finish, hd] at h
        cases hu <;> simp_all
    · have hopen := hc.not_complete (.inr (by simp [ho]))
      refine hunexpected ?_ fun hp ↦ hopen hp.2
      rw [finish, hd] at h
      cases hu <;> simp_all

/-- Where the parser comes to the end of the tokens, the tokens break off. -/
private theorem breaksOff_of_finish {kind : ParseError.Kind} {blamed : Token}
    (hc : Consistent (2 * limit + 2).toInt before frames term) (hf : ∀ f ∈ frames, f.isMarked)
    (h : finish (Token.endAt (Token.endOffset before)) frames term =
      .error (.error (.misplaced kind blamed))) : BreaksOff before blamed kind := by
  have hneeds := needsTerm_iff_of_after hc.after_start
  have hopens := unclosed_eq_of_after hc.after_start
  cases term with
  | none =>
    cases h
    exact ⟨hc.not_complete (.inl rfl), fun _ ↦ ⟨rfl, rfl⟩, fun hn ↦ absurd (hneeds.mpr rfl) hn⟩
  | some t =>
    rcases hc.closeDyads_eq hf with ⟨-, u, hd⟩ | ⟨opening, outer, u, ho, -, hd⟩
    · rw [finish, hd] at h
      cases h
    · rw [finish, hd] at h
      cases h
      have hopen := hc.not_complete (.inr (by simp [ho]))
      refine ⟨hopen, fun hn ↦ ?_, fun _ ↦ ⟨rfl, by simp [hopens, ho]⟩⟩
      cases hneeds.mp hn

/-- A parse that goes on from tokens read and ends in a misplaced token rejects one of the tokens to
come or finds that the tokens break off. -/
private theorem located_of_parseLoop {stop : Int} {kind : ParseError.Kind} {blamed : Token}
    (hc : Consistent (2 * limit + 2).toInt before frames term) (hf : ∀ f ∈ frames, f.isMarked)
    (hu : ∀ t ∈ rest, Usable t) (hstop : stop = Token.endOffset (before ++ rest))
    (h : parseLoop limit stop frames term rest = .error (.error (.misplaced kind blamed))) :
    (∃ read unread, before ++ rest = read ++ blamed :: unread ∧ Rejects read blamed kind) ∨
      (Viable (before ++ rest) ∧ BreaksOff (before ++ rest) blamed kind) := by
  induction rest generalizing before frames term with
  | nil =>
    rw [List.append_nil] at hstop ⊢
    subst hstop
    exact .inr ⟨hc.viable hf, breaksOff_of_finish hc hf h⟩
  | cons token rest ih =>
    obtain ⟨htoken, hrest⟩ := List.forall_mem_cons.mp hu
    cases htoken.meets stop hc hf with
    | step hs =>
      have hmarked := hs.isMarked (fun hk ↦ by cases htoken <;> simp_all) hf
      rw [hs.parseLoop_eq] at h
      rw [List.append_cons] at hstop ⊢
      exact ih (hs.consistent hc) hmarked hrest hstop h
    | guard hg =>
      rw [hg] at h
      cases h
    | stops hn hfin =>
      rw [hfin] at h
      obtain ⟨rfl, hr⟩ := rejects_of_finish htoken hc hf hn h
      exact .inl ⟨before, rest, rfl, hr⟩

end Steps

/-- A misplaced token is the first that no expression has there, and where tokens break off the end
of the input or the innermost open parenthesis is to blame. -/
theorem misplaced_located {limit : Int64} {tokens : List Token} {kind : ParseError.Kind}
    {token : Token} (hu : ∀ t ∈ tokens, Usable t)
    (h : parse limit tokens = .error (.error (.misplaced kind token))) :
    (¬ Viable tokens →
      ∃ read unread, tokens = read ++ token :: unread ∧ Rejects read token kind) ∧
    (Viable tokens → BreaksOff tokens token kind) := by
  unfold parse at h
  dsimp only at h
  split at h
  · next hg =>
    have hc : Consistent (2 * limit + 2).toInt [] [] none := ⟨.nil, withinGuard_iff.mp hg⟩
    rcases located_of_parseLoop hc nofun hu rfl h with ⟨read, unread, he, hr⟩ | ⟨hv, hb⟩
    · rw [List.nil_append] at he
      refine ⟨fun _ ↦ ⟨read, unread, he, hr⟩, fun hv ↦ absurd ?_ hr.not_viable⟩
      rw [he, List.append_cons] at hv
      exact hv.of_append
    · exact ⟨fun hn ↦ absurd hv hn, fun _ ↦ hb⟩
  · cases h

/-- `(1` breaks off inside its parenthesis, and the second parenthesis of `1))` is never read. -/
theorem misplaced_located_parentheses :
    BreaksOff [⟨.leftParen, 0, [40]⟩, ⟨.number, 1, [49]⟩] ⟨.leftParen, 0, [40]⟩
      .unmatchedParenthesis ∧
    ∃ read unread,
      [⟨.number, 0, [49]⟩, ⟨.rightParen, 1, [41]⟩, ⟨.rightParen, 2, [41]⟩] =
        read ++ (⟨.rightParen, 1, [41]⟩ : Token) :: unread ∧
      Rejects read ⟨.rightParen, 1, [41]⟩ .unmatchedParenthesis := by
  have hopening (offset : Int) : Usable ⟨.leftParen, offset, [40]⟩ := .leftParen rfl
  have hone (offset : Int) : Usable ⟨.number, offset, [49]⟩ := .literal (.inl rfl) ⟨_, rfl⟩
  have hclosing (offset : Int) : Usable ⟨.rightParen, offset, [41]⟩ := .rightParen rfl
  constructor
  · have hparse : parse 1000 [⟨.leftParen, 0, [40]⟩, ⟨.number, 1, [49]⟩] =
        .error (.error (.misplaced .unmatchedParenthesis ⟨.leftParen, 0, [40]⟩)) := rfl
    have hcomplete : Complete
        [⟨.leftParen, 0, [40]⟩, ⟨.number, 1, [49]⟩, ⟨.rightParen, 2, [41]⟩] :=
      ⟨_, _, .single (.paren rfl rfl (.single (.literal (.inl rfl) rfl)))⟩
    exact (misplaced_located (by simp [hopening, hone]) hparse).2
      ⟨[⟨.rightParen, 2, [41]⟩], hcomplete⟩
  · have hparse : parse 1000 [⟨.number, 0, [49]⟩, ⟨.rightParen, 1, [41]⟩, ⟨.rightParen, 2, [41]⟩] =
        .error (.error (.misplaced .unmatchedParenthesis ⟨.rightParen, 1, [41]⟩)) := rfl
    exact (misplaced_located (by simp [hone, hclosing]) hparse).1 (not_viable_of_after_eq_none rfl)

end Ravel.Tree
