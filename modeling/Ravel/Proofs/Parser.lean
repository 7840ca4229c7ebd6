import Ravel.Proofs.Grammar

/-!
# The parser and the grammar

The parser reads the tokens once and keeps what is unfinished in frames. It gives a tree exactly if
the tokens have a derivation of that tree within its guard (`parse_eq_ok_iff_derives`). In one
direction the parser is followed along a derivation. In the other a relation between the frames
and the tokens that they were read from is kept by every step.
-/

namespace Ravel.Tree

/-! ### Steps of the parser -/

section Steps

variable {limit : Int64} {stop : Int} {frames : List Frame} {t : Tree} {token : Token}
  {rest : List Token}

/-- Parses on with the frames and the term that closing verbs has left. -/
def resume (limit : Int64) (stop : Int) (rest : List Token) :
    Except Fault (List Frame × Tree) → Except (Halt ParseError) Tree
  | .error f => .error (.fault f)
  | .ok (frames, t) => parseLoop limit stop frames (some t) rest

/-- A literal is a term that the verbs waiting for one take. -/
theorem parseLoop_literal (hk : token.kind = .number ∨ token.kind = .vector) {a : Noun}
    (ha : Noun.ofLiteral token.text = .ok a) :
    parseLoop limit stop frames none (token :: rest) =
      resume limit stop rest (closeMonads frames (.literal a token.offset)) := by
  rcases hk with hk | hk
  all_goals
    simp only [parseLoop, hk, ha]
    cases closeMonads frames (.literal a token.offset) <;> rfl

/-- A verb where a term is needed waits for one, if there is a level for it. -/
theorem parseLoop_monad (hk : token.kind = .verb) :
    parseLoop limit stop frames none (token :: rest) =
      if withinGuard limit (.monad token.text.head? token.offset :: frames) then
        parseLoop limit stop (.monad token.text.head? token.offset :: frames) none rest
      else .error (.error (.tooDeep limit token.offset)) := by
  simp only [parseLoop, hk]

/-- A left parenthesis waits for an expression, if there is a level for it. -/
theorem parseLoop_opening (hk : token.kind = .leftParen) :
    parseLoop limit stop frames none (token :: rest) =
      if withinGuard limit (.paren token :: frames) then
        parseLoop limit stop (.paren token :: frames) none rest
      else .error (.error (.tooDeep limit (upcoming stop rest).offset)) := by
  simp only [parseLoop, hk]

/-- A verb after a term waits for an expression, if there is a level for it. -/
theorem parseLoop_dyad (hk : token.kind = .verb) :
    parseLoop limit stop frames (some t) (token :: rest) =
      if withinGuard limit (.dyad t token.text.head? token.offset :: frames) then
        parseLoop limit stop (.dyad t token.text.head? token.offset :: frames) none rest
      else .error (.error (.tooDeep limit (upcoming stop rest).offset)) := by
  simp only [parseLoop, hk]

/-- A right parenthesis makes the expression before it a term. -/
theorem parseLoop_closing (hk : token.kind = .rightParen) {opening : Token} {outer : List Frame}
    {e : Tree} (hc : closeDyads frames t = .ok (.paren opening :: outer, e)) :
    parseLoop limit stop frames (some t) (token :: rest) =
      resume limit stop rest (closeMonads outer (.paren e opening.offset)) := by
  simp only [parseLoop, hk, hc]
  cases closeMonads outer (.paren e opening.offset) <;> rfl

/-- The guard counts the frames and one level more. -/
theorem withinGuard_iff : withinGuard limit frames = true ↔
    (frames.length + 1 : Int) ≤ (2 * limit + 2).toInt := decide_eq_true_iff

/-- The guard is twice the limit and two, modulo 2^64. -/
theorem toInt_guard (limit : Int64) :
    (2 * limit + 2).toInt = (2 * limit.toInt + 2).bmod 0x10000000000000000 := by
  rw [Int64.toInt_add, Int64.toInt_mul, Int.bmod_add_bmod]
  rfl

/-- The guard is twice the limit and two while that is a 64-bit integer. -/
theorem toInt_guard_of_lt (hmin : -0x8000000000000000 ≤ 2 * limit.toInt + 2)
    (hmax : 2 * limit.toInt + 2 < 0x8000000000000000) :
    (2 * limit + 2).toInt = 2 * limit.toInt + 2 := by
  rw [toInt_guard]
  exact Int.bmod_eq_of_le hmin hmax

end Steps

/-! ### Every derivation within the guard is found -/

/-- No verb on top of the frames waits for a term. -/
def NoMonadOnTop (frames : List Frame) : Prop :=
  ∀ mark offset, some (.monad mark offset) ≠ frames.head?

/-- A term is kept where no verb waits for one. -/
theorem closeMonads_of_noMonadOnTop {frames : List Frame} (h : NoMonadOnTop frames) (t : Tree) :
    closeMonads frames t = .ok (frames, t) := by
  unfold closeMonads
  split
  · exact absurd rfl (h _ _)
  · exact absurd rfl (h _ _)
  · rfl

/-- What the parser does with the tokens of a derivation. A term is handed to the verbs that wait
for one. At the end of an expression the verbs of the expression may still be on the frames, but
closing them gives what closing the frames before it with its tree gives. -/
def Parses (limit : Int64) (stop : Int) (n : Nat) (ts : List Token) (t : Tree) : Phrase → Prop
  | .term => ∀ frames rest, (frames.length + 1 + n : Int) ≤ (2 * limit + 2).toInt →
      parseLoop limit stop frames none (ts ++ rest) =
        resume limit stop rest (closeMonads frames t)
  | .expression => ∀ frames rest, NoMonadOnTop frames →
      (frames.length + n : Int) ≤ (2 * limit + 2).toInt →
      ∃ inner u, parseLoop limit stop frames none (ts ++ rest) =
        parseLoop limit stop inner (some u) rest ∧ closeDyads inner u = closeDyads frames t

/-- The parser follows every derivation that is within the guard. -/
private theorem Derives.parses {p : Phrase} {n : Nat} {ts : List Token} {t : Tree} (limit : Int64)
    (stop : Int) (h : Derives p n ts t) : Parses limit stop n ts t p := by
  induction h with
  | literal hk ha =>
    intro frames rest _
    exact parseLoop_literal hk ha
  | @monad v mark n ts r hk hm hr ih =>
    intro frames rest hg
    rw [List.cons_append, parseLoop_monad hk, if_pos (withinGuard_iff.mpr ?_),
      ih _ _ (by rw [List.length_cons]; omega), hm]
    · rfl
    · rw [List.length_cons]
      omega
  | @paren opening closing n ts e ho hc he ih =>
    intro frames rest hg
    have hn := he.levels_pos
    rw [List.cons_append, List.append_assoc, parseLoop_opening ho,
      if_pos (withinGuard_iff.mpr (by rw [List.length_cons]; omega))]
    obtain ⟨inner, u, hp, hcl⟩ := ih (.paren opening :: frames) ([closing] ++ rest)
      (fun _ _ ↦ nofun) (by rw [List.length_cons]; omega)
    rw [hp, List.singleton_append, parseLoop_closing hc hcl]
  | single ht ih =>
    intro frames rest hb hg
    rw [ih frames rest (by omega), closeMonads_of_noMonadOnTop hb]
    exact ⟨frames, _, rfl, rfl⟩
  | @dyad v mark m n ts us l r hl hk hm hr ihl ihr =>
    intro frames rest hb hg
    have hn := hr.levels_pos
    rw [List.append_assoc, List.cons_append, ihl frames _ (by omega),
      closeMonads_of_noMonadOnTop hb, resume, parseLoop_dyad hk,
      if_pos (withinGuard_iff.mpr (by rw [List.length_cons]; omega)), hm]
    exact ihr (.dyad l (some mark) v.offset :: frames) rest (fun _ _ ↦ nofun)
      (by rw [List.length_cons]; omega)

/-- A derivation within the guard is the outcome of the parser. -/
private theorem Derives.parse_eq_ok {limit : Int64} {n : Nat} {tokens : List Token} {t : Tree}
    (h : Derives .expression n tokens t) (hg : (n : Int) ≤ (2 * limit + 2).toInt) :
    parse limit tokens = .ok t := by
  have hn := h.levels_pos
  obtain ⟨inner, u, hp, hc⟩ := h.parses limit (Token.endOffset tokens) [] [] (fun _ _ ↦ nofun)
    (by rw [List.length_nil]; omega)
  rw [List.append_nil] at hp
  rw [parse, if_pos (withinGuard_iff.mpr (by rw [List.length_nil]; omega)), hp, parseLoop, finish,
    hc]
  rfl

/-! ### Every tree that is found has a derivation -/

/-- One step of the parser: the frames and the term before and after a token. -/
inductive Step (limit : Int64) (token : Token) :
    List Frame → Option Tree → List Frame → Option Tree → Prop where
  | monad {frames : List Frame} (hk : token.kind = .verb)
      (hg : withinGuard limit (.monad token.text.head? token.offset :: frames) = true) :
      Step limit token frames none (.monad token.text.head? token.offset :: frames) none
  | opening {frames : List Frame} (hk : token.kind = .leftParen)
      (hg : withinGuard limit (.paren token :: frames) = true) :
      Step limit token frames none (.paren token :: frames) none
  | dyad {frames : List Frame} {t : Tree} (hk : token.kind = .verb)
      (hg : withinGuard limit (.dyad t token.text.head? token.offset :: frames) = true) :
      Step limit token frames (some t) (.dyad t token.text.head? token.offset :: frames) none
  | closing {frames outer inner : List Frame} {t e u : Tree} {opening : Token}
      (hk : token.kind = .rightParen)
      (hd : closeDyads frames t = .ok (.paren opening :: outer, e))
      (hm : closeMonads outer (.paren e opening.offset) = .ok (inner, u)) :
      Step limit token frames (some t) inner (some u)
  | literal {frames inner : List Frame} {a : Noun} {u : Tree}
      (hk : token.kind = .number ∨ token.kind = .vector) (ha : Noun.ofLiteral token.text = .ok a)
      (hm : closeMonads frames (.literal a token.offset) = .ok (inner, u)) :
      Step limit token frames none inner (some u)

/-- A step of the parser that ends in a fault, since a verb without a mark is to be closed. -/
inductive Breaks (token : Token) : List Frame → Option Tree → Fault → Prop where
  | dyads {frames : List Frame} {t : Tree} {f : Fault} (hd : closeDyads frames t = .error f) :
      Breaks token frames (some t) f
  | paren {frames outer : List Frame} {t e : Tree} {opening : Token} {f : Fault}
      (hd : closeDyads frames t = .ok (.paren opening :: outer, e))
      (hm : closeMonads outer (.paren e opening.offset) = .error f) :
      Breaks token frames (some t) f
  | literal {frames : List Frame} {a : Noun} {f : Fault}
      (hm : closeMonads frames (.literal a token.offset) = .error f) : Breaks token frames none f

/-- The errors that the parser reports at a token of its own accord: a literal that denotes no noun,
and a level beyond the guard, found at the token or at the one after it. -/
inductive Refuses (limit : Int64) (stop : Int) (token : Token) (rest : List Token) :
    ParseError → Prop where
  | literal : Refuses limit stop token rest (.unexpected token)
  | guard {t : Token} (ht : t = token ∨ t = upcoming stop rest) :
      Refuses limit stop token rest (.tooDeep limit t.offset)

/-- What the parser can do at a token: make a step and go on, end there, report an error or end in
a fault. -/
inductive Turn (limit : Int64) (stop : Int) (frames : List Frame) (term : Option Tree)
    (token : Token) (rest : List Token) : Except (Halt ParseError) Tree → Prop where
  | step {frames' : List Frame} {term' : Option Tree}
      (h : Step limit token frames term frames' term') :
      Turn limit stop frames term token rest (parseLoop limit stop frames' term' rest)
  | finish : Turn limit stop frames term token rest (finish token frames term)
  | error {e : ParseError} (h : Refuses limit stop token rest e) :
      Turn limit stop frames term token rest (.error (.error e))
  | fault {f : Fault} (h : Breaks token frames term f) :
      Turn limit stop frames term token rest (.error (.fault f))

/-- The parser does nothing else at a token. -/
theorem turn_parseLoop (limit : Int64) (stop : Int) (frames : List Frame) (term : Option Tree)
    (token : Token) (rest : List Token) :
    Turn limit stop frames term token rest (parseLoop limit stop frames term (token :: rest)) := by
  have hfinish
      (h : parseLoop limit stop frames term (token :: rest) = Tree.finish token frames term) :
      Turn limit stop frames term token rest
        (parseLoop limit stop frames term (token :: rest)) := by
    rw [h]
    exact .finish
  cases term with
  | none =>
    have hliteral (hk : token.kind = .number ∨ token.kind = .vector) :
        Turn limit stop frames none token rest
          (parseLoop limit stop frames none (token :: rest)) := by
      cases ha : Noun.ofLiteral token.text with
      | error x =>
        have hp : parseLoop limit stop frames none (token :: rest) =
            .error (.error (.unexpected token)) := by
          rcases hk with hk | hk <;> simp only [parseLoop, hk, ha]
        rw [hp]
        exact .error .literal
      | ok a =>
        rw [parseLoop_literal hk ha]
        cases hm : closeMonads frames (.literal a token.offset) with
        | error f => exact .fault (.literal hm)
        | ok p => exact .step (.literal hk ha hm)
    cases hk : token.kind with
    | number => exact hliteral (.inl hk)
    | vector => exact hliteral (.inr hk)
    | verb =>
      rw [parseLoop_monad hk]
      split
      · next hg => exact .step (.monad hk hg)
      · exact .error (.guard (.inl rfl))
    | leftParen =>
      rw [parseLoop_opening hk]
      split
      · next hg => exact .step (.opening hk hg)
      · exact .error (.guard (.inr rfl))
    | eof => exact hfinish (by simp only [parseLoop, hk])
    | rightParen => exact hfinish (by simp only [parseLoop, hk])
    | error => exact hfinish (by simp only [parseLoop, hk])
    | other code => exact hfinish (by simp only [parseLoop, hk])
  | some t =>
    cases hk : token.kind with
    | verb =>
      rw [parseLoop_dyad hk]
      split
      · next hg => exact .step (.dyad hk hg)
      · exact .error (.guard (.inr rfl))
    | rightParen =>
      cases hd : closeDyads frames t with
      | error f =>
        have hp : parseLoop limit stop frames (some t) (token :: rest) = .error (.fault f) := by
          simp only [parseLoop, hk, hd]
        rw [hp]
        exact .fault (.dyads hd)
      | ok p =>
        obtain ⟨closed, e⟩ := p
        cases closed with
        | nil => exact hfinish (by simp only [parseLoop, hk, hd])
        | cons frame outer =>
          cases frame with
          | paren opening =>
            rw [parseLoop_closing hk hd]
            cases hm : closeMonads outer (.paren e opening.offset) with
            | error f => exact .fault (.paren hd hm)
            | ok p => exact .step (.closing hk hd hm)
          | monad mark offset => exact hfinish (by simp only [parseLoop, hk, hd])
          | dyad left mark offset => exact hfinish (by simp only [parseLoop, hk, hd])
    | eof => exact hfinish (by simp only [parseLoop, hk])
    | number => exact hfinish (by simp only [parseLoop, hk])
    | vector => exact hfinish (by simp only [parseLoop, hk])
    | leftParen => exact hfinish (by simp only [parseLoop, hk])
    | error => exact hfinish (by simp only [parseLoop, hk])
    | other code => exact hfinish (by simp only [parseLoop, hk])

/-- The parse ends with a tree at a token only if that is the end of the input and the frames close
to the tree. -/
private theorem finish_eq_ok {token : Token} {frames : List Frame} {term : Option Tree}
    {tree : Tree} (h : finish token frames term = .ok tree) :
    token.kind = .eof ∧ ∃ t, term = some t ∧ closeDyads frames t = .ok ([], tree) := by
  unfold finish at h
  split at h
  · cases h
  · next t =>
    split at h
    · cases h
    · next u hc =>
      split at h
      · next hk =>
        cases h
        exact ⟨hk, t, rfl, hc⟩
      · cases h
      · cases h
    · split at h <;> cases h
    · cases h

/-- A parse that gives a tree makes a step at every token. -/
private theorem step_of_parseLoop_eq_ok {limit : Int64} {stop : Int} {frames : List Frame}
    {term : Option Tree} {token : Token} {rest : List Token} {tree : Tree}
    (h : parseLoop limit stop frames term (token :: rest) = .ok tree) (he : token.kind ≠ .eof) :
    ∃ frames' term', Step limit token frames term frames' term' ∧
      parseLoop limit stop frames' term' rest = .ok tree := by
  have ht := turn_parseLoop limit stop frames term token rest
  generalize parseLoop limit stop frames term (token :: rest) = r at h ht
  cases ht with
  | step hs => exact ⟨_, _, hs, h⟩
  | finish => exact absurd (finish_eq_ok h).1 he
  | error e => cases h
  | fault hb => cases h

/-- The tokens that frames were read from. The left operand of a verb is a term within the guard. -/
inductive Pending (guard : Int) : List Frame → List Token → Prop where
  | nil : Pending guard [] []
  | monad {v : Token} {frames : List Frame} {ts : List Token} (h : Pending guard frames ts)
      (hk : v.kind = .verb) : Pending guard (.monad v.text.head? v.offset :: frames) (ts ++ [v])
  | paren {opening : Token} {frames : List Frame} {ts : List Token} (h : Pending guard frames ts)
      (hk : opening.kind = .leftParen) : Pending guard (.paren opening :: frames) (ts ++ [opening])
  | dyad {v : Token} {frames : List Frame} {ts us : List Token} {n : Nat} {l : Tree}
      (h : Pending guard frames ts) (hb : NoMonadOnTop frames) (hl : Derives .term n us l)
      (hg : (frames.length + 1 + n : Int) ≤ guard) (hk : v.kind = .verb) :
      Pending guard (.dyad l v.text.head? v.offset :: frames) (ts ++ us ++ [v])

/-- The tokens read so far are those of the frames, followed by those of the term if there is
one. -/
def Consistent (guard : Int) (before : List Token) (frames : List Frame) : Option Tree → Prop
  | none => Pending guard frames before ∧ (frames.length + 1 : Int) ≤ guard
  | some t => ∃ ts us n, before = ts ++ us ∧ Pending guard frames ts ∧ NoMonadOnTop frames ∧
      Derives .term n us t ∧ (frames.length + 1 + n : Int) ≤ guard

variable {guard : Int} {limit : Int64}

/-- A term that is handed to the verbs that wait for it leaves a longer term. -/
private theorem closeMonads_consistent {frames inner : List Frame} {ts us : List Token} {n : Nat}
    {t u : Tree} (hp : Pending guard frames ts) (ht : Derives .term n us t)
    (hg : (frames.length + 1 + n : Int) ≤ guard) (h : closeMonads frames t = .ok (inner, u)) :
    Consistent guard (ts ++ us) inner (some u) := by
  induction hp generalizing n us t with
  | nil =>
    cases h
    exact ⟨[], us, n, rfl, .nil, fun _ _ ↦ nofun, ht, hg⟩
  | @monad v frames ts hp hk ih =>
    cases hm : v.text.head? with
    | none => rw [hm, closeMonads] at h; cases h
    | some mark =>
      rw [hm, closeMonads] at h
      rw [List.length_cons] at hg
      rw [List.append_assoc]
      exact ih (.monad hk hm ht) (by omega) h
  | @paren opening frames ts hp hk ih =>
    cases h
    exact ⟨ts ++ [opening], us, n, rfl, hp.paren hk, fun _ _ ↦ nofun, ht, hg⟩
  | @dyad v frames ts vs m l hp hb hl hgl hk ih =>
    cases h
    exact ⟨ts ++ vs ++ [v], us, n, rfl, hp.dyad hb hl hgl hk, fun _ _ ↦ nofun, ht, hg⟩

/-- An expression that is handed to the verbs that wait for it leaves a longer expression, before
which there is nothing or a parenthesis. -/
theorem closeDyads_consistent {frames inner : List Frame} {ts us : List Token} {n : Nat}
    {t u : Tree} (hp : Pending guard frames ts) (hb : NoMonadOnTop frames)
    (ht : Derives .expression n us t) (hg : (frames.length + n : Int) ≤ guard)
    (h : closeDyads frames t = .ok (inner, u)) :
    ∃ ts' us' m, ts ++ us = ts' ++ us' ∧ Pending guard inner ts' ∧ Derives .expression m us' u ∧
      (inner.length + m : Int) ≤ guard := by
  induction hp generalizing n us t with
  | nil =>
    cases h
    exact ⟨[], us, n, rfl, .nil, ht, hg⟩
  | monad hp hk ih => exact absurd rfl (hb _ _)
  | @paren opening frames ts hp hk ih =>
    cases h
    exact ⟨ts ++ [opening], us, n, rfl, hp.paren hk, ht, hg⟩
  | @dyad v frames ts vs m l hp hbl hl hgl hk ih =>
    cases hm : v.text.head? with
    | none => rw [hm, closeDyads] at h; cases h
    | some mark =>
      rw [hm, closeDyads] at h
      rw [List.length_cons] at hg
      obtain ⟨ts', us', k, he, hrest⟩ := ih hbl (.dyad hl hk hm ht) (by omega) h
      refine ⟨ts', us', k, ?_, hrest⟩
      rw [← he]
      simp only [List.append_assoc, List.singleton_append]

/-- A step keeps the tokens read so far consistent with the frames and the term. -/
theorem Step.consistent {token : Token} {before : List Token} {frames frames' : List Frame}
    {term term' : Option Tree} (h : Step limit token frames term frames' term')
    (hc : Consistent (2 * limit + 2).toInt before frames term) :
    Consistent (2 * limit + 2).toInt (before ++ [token]) frames' term' := by
  cases h with
  | monad hk hg => exact ⟨hc.1.monad hk, withinGuard_iff.mp hg⟩
  | opening hk hg => exact ⟨hc.1.paren hk, withinGuard_iff.mp hg⟩
  | dyad hk hg =>
    obtain ⟨ts, us, n, rfl, hp, hb, ht, hgt⟩ := hc
    exact ⟨hp.dyad hb ht hgt hk, withinGuard_iff.mp hg⟩
  | literal hk ha hm =>
    exact closeMonads_consistent hc.1 (.literal hk ha) (by have := hc.2; omega) hm
  | closing hk hd hm =>
    obtain ⟨ts, us, n, rfl, hp, hb, ht, hg⟩ := hc
    obtain ⟨ts', us', m, he, hp', ht', hg'⟩ :=
      closeDyads_consistent hp hb (.single ht) (by omega) hd
    -- the tokens before the expression end in the parenthesis that the token closes
    cases hp' with
    | @paren _ outer vs hp' ho =>
      rw [List.length_cons] at hg'
      rw [he, List.append_assoc, List.append_assoc]
      exact closeMonads_consistent hp' (.paren ho hk ht') (by omega) hm

/-- A parse from consistent frames that ends with a tree has read a derivation of it within the
guard. -/
private theorem Consistent.derives_of_finish {token : Token} {before : List Token}
    {frames : List Frame}
    {term : Option Tree} {tree : Tree} (hc : Consistent guard before frames term)
    (h : finish token frames term = .ok tree) :
    ∃ n : Nat, Derives .expression n before tree ∧ (n : Int) ≤ guard := by
  obtain ⟨-, t, rfl, hd⟩ := finish_eq_ok h
  obtain ⟨ts, us, n, rfl, hp, hb, ht, hg⟩ := hc
  obtain ⟨ts', us', m, he, hp', ht', hg'⟩ :=
    closeDyads_consistent hp hb (.single ht) (by omega) hd
  cases hp' with
  | nil =>
    rw [he, List.nil_append]
    exact ⟨m, ht', by simpa using hg'⟩

/-- A parse from consistent frames that gives a tree reads a derivation of it within the guard, up
to the first token that stands for the end of the input. -/
private theorem derives_of_parseLoop_eq_ok {stop : Int} {before rest : List Token}
    {frames : List Frame}
    {term : Option Tree} {tree : Tree} (hc : Consistent (2 * limit + 2).toInt before frames term)
    (h : parseLoop limit stop frames term rest = .ok tree) :
    ∃ n : Nat, Derives .expression n (before ++ rest.takeWhile (·.kind ≠ .eof)) tree ∧
      (n : Int) ≤ (2 * limit + 2).toInt := by
  induction rest generalizing before frames term with
  | nil =>
    rw [List.takeWhile_nil, List.append_nil]
    exact hc.derives_of_finish h
  | cons token rest ih =>
    by_cases he : token.kind = .eof
    · have hend : parseLoop limit stop frames term (token :: rest) = finish token frames term := by
        cases term <;> simp only [parseLoop, he]
      rw [List.takeWhile_cons_of_neg (by simpa using he), List.append_nil]
      exact hc.derives_of_finish (hend.symm.trans h)
    · obtain ⟨frames', term', hs, hr⟩ := step_of_parseLoop_eq_ok h he
      have hx := ih (hs.consistent hc) hr
      rwa [List.append_assoc, List.singleton_append,
        ← List.takeWhile_cons_of_pos (by simpa using he)] at hx

/-- The tree of a parse is derived from the tokens before the end of the input. -/
theorem exists_derives_of_parse {tokens : List Token} {tree : Tree}
    (h : parse limit tokens = .ok tree) :
    ∃ n : Nat, Derives .expression n (tokens.takeWhile (·.kind ≠ .eof)) tree ∧
      (n : Int) ≤ (2 * limit + 2).toInt := by
  unfold parse at h
  dsimp only at h
  split at h
  · next hg =>
    have hc : Consistent (2 * limit + 2).toInt [] [] none := ⟨.nil, withinGuard_iff.mp hg⟩
    exact derives_of_parseLoop_eq_ok hc h
  · cases h

/-- The parser gives a tree exactly if the tokens have a derivation of it within the guard. -/
theorem parse_eq_ok_iff_derives {tokens : List Token} (hk : ∀ t ∈ tokens, t.kind ≠ .eof)
    {tree : Tree} : parse limit tokens = .ok tree ↔
      ∃ n : Nat, Derives .expression n tokens tree ∧ (n : Int) ≤ (2 * limit + 2).toInt := by
  have hall : tokens.takeWhile (·.kind ≠ .eof) = tokens := by
    rw [← List.append_nil tokens, List.takeWhile_append_of_pos (by simpa using hk),
      List.takeWhile_nil]
  constructor
  · intro h
    have hderives := exists_derives_of_parse h
    rwa [hall] at hderives
  · rintro ⟨n, hd, hg⟩
    exact hd.parse_eq_ok hg

/-! ### Faults -/

/-- A frame whose verb, if there is one, has a mark. -/
def Frame.isMarked : Frame → Bool
  | .monad mark _ => mark.isSome
  | .dyad _ mark _ => mark.isSome
  | .paren _ => true

/-- Verbs with marks take the terms that they wait for. -/
theorem closeMonads_of_isMarked {frames : List Frame} (h : ∀ f ∈ frames, f.isMarked) (t : Tree) :
    ∃ inner u, closeMonads frames t = .ok (inner, u) ∧ ∀ f ∈ inner, f.isMarked := by
  induction frames generalizing t with
  | nil => exact ⟨[], t, rfl, h⟩
  | cons frame frames ih =>
    have hrest : ∀ f ∈ frames, f.isMarked := fun f hf ↦ h f (List.mem_cons_of_mem frame hf)
    cases frame with
    | paren opening => exact ⟨_, t, rfl, h⟩
    | dyad left mark offset => exact ⟨_, t, rfl, h⟩
    | monad mark offset =>
      obtain ⟨m, rfl⟩ := Option.isSome_iff_exists.mp (h _ List.mem_cons_self)
      exact ih hrest _

/-- Verbs with marks take the expressions that they wait for. -/
theorem closeDyads_of_isMarked {frames : List Frame} (h : ∀ f ∈ frames, f.isMarked) (t : Tree) :
    ∃ inner u, closeDyads frames t = .ok (inner, u) ∧ ∀ f ∈ inner, f.isMarked := by
  induction frames generalizing t with
  | nil => exact ⟨[], t, rfl, h⟩
  | cons frame frames ih =>
    have hrest : ∀ f ∈ frames, f.isMarked := fun f hf ↦ h f (List.mem_cons_of_mem frame hf)
    cases frame with
    | paren opening => exact ⟨_, t, rfl, h⟩
    | monad mark offset => exact ⟨_, t, rfl, h⟩
    | dyad left mark offset =>
      obtain ⟨m, rfl⟩ := Option.isSome_iff_exists.mp (h _ List.mem_cons_self)
      exact ih hrest _

/-- With marks on all frames the end of a parse is no fault. -/
private theorem finish_ne_fault {frames : List Frame} (h : ∀ f ∈ frames, f.isMarked) (token : Token)
    (term : Option Tree) (f : Fault) : finish token frames term ≠ .error (.fault f) := by
  cases term with
  | none => nofun
  | some t =>
    obtain ⟨inner, u, hc, -⟩ := closeDyads_of_isMarked h t
    rw [finish, hc]
    split
    · next hx => cases hx
    · split <;> nofun
    · split <;> nofun
    · nofun

/-- With marks on all frames no step ends in a fault. -/
private theorem not_breaks_of_isMarked {frames : List Frame} (h : ∀ f ∈ frames, f.isMarked)
    {token : Token} {term : Option Tree} {f : Fault} : ¬ Breaks token frames term f := by
  intro hb
  cases hb with
  | @dyads t f hd =>
    obtain ⟨inner, u, hc, -⟩ := closeDyads_of_isMarked h t
    rw [hd] at hc
    cases hc
  | @paren outer t e opening f hd hm =>
    obtain ⟨inner, u, hc, hi⟩ := closeDyads_of_isMarked h t
    rw [hd] at hc
    cases hc
    obtain ⟨inner, u, hc, -⟩ := closeMonads_of_isMarked
      (fun f hf ↦ hi f (List.mem_cons_of_mem _ hf)) (.paren e opening.offset)
    rw [hm] at hc
    cases hc
  | @literal a f hm =>
    obtain ⟨inner, u, hc, -⟩ := closeMonads_of_isMarked h (.literal a token.offset)
    rw [hm] at hc
    cases hc

/-- A step keeps marks on all frames if a verb that it reads has a text. -/
theorem Step.isMarked {token : Token} {frames frames' : List Frame} {term term' : Option Tree}
    (hs : Step limit token frames term frames' term') (hv : token.kind = .verb → token.text ≠ [])
    (h : ∀ f ∈ frames, f.isMarked) : ∀ f ∈ frames', f.isMarked := by
  have hmark (hk : token.kind = .verb) : token.text.head?.isSome := by
    rw [List.isSome_head?]
    simpa using hv hk
  cases hs with
  | monad hk hg => exact List.forall_mem_cons.mpr ⟨hmark hk, h⟩
  | opening hk hg => exact List.forall_mem_cons.mpr ⟨rfl, h⟩
  | dyad hk hg => exact List.forall_mem_cons.mpr ⟨hmark hk, h⟩
  | @literal inner a u hk ha hm =>
    obtain ⟨inner, u, hc, hi⟩ := closeMonads_of_isMarked h (.literal a token.offset)
    rw [hm] at hc
    cases hc
    exact hi
  | @closing outer inner t e u opening hk hd hm =>
    obtain ⟨inner, u, hc, hi⟩ := closeDyads_of_isMarked h t
    rw [hd] at hc
    cases hc
    obtain ⟨inner, u, hc, hi⟩ := closeMonads_of_isMarked
      (fun f hf ↦ hi f (List.mem_cons_of_mem _ hf)) (.paren e opening.offset)
    rw [hm] at hc
    cases hc
    exact hi

/-- A parse from frames with marks ends in no fault if every verb to come has a text. -/
private theorem parseLoop_ne_fault {stop : Int} {frames : List Frame} {term : Option Tree}
    {tokens : List Token} (hf : ∀ f ∈ frames, f.isMarked)
    (hv : ∀ t ∈ tokens, t.kind = .verb → t.text ≠ []) (f : Fault) :
    parseLoop limit stop frames term tokens ≠ .error (.fault f) := by
  induction tokens generalizing frames term with
  | nil => exact finish_ne_fault hf _ term f
  | cons token rest ih =>
    have ht := turn_parseLoop limit stop frames term token rest
    generalize parseLoop limit stop frames term (token :: rest) = r at ht
    cases ht with
    | step hs =>
      exact ih (hs.isMarked (hv token List.mem_cons_self) hf)
        fun t ht ↦ hv t (List.mem_cons_of_mem token ht)
    | finish => exact finish_ne_fault hf token term f
    | error e => nofun
    | fault hb => exact absurd hb (not_breaks_of_isMarked hf)

/-- A parse ends in no fault if every verb has a text. -/
theorem parse_ne_fault {tokens : List Token} (hv : ∀ t ∈ tokens, t.kind = .verb → t.text ≠ [])
    (f : Fault) : parse limit tokens ≠ .error (.fault f) := by
  unfold parse
  dsimp only
  split
  · exact parseLoop_ne_fault (fun f hf ↦ absurd hf List.not_mem_nil) hv f
  · nofun

/-! ### The parser and the grammar -/

/-- While the guard is a 64-bit integer, the parser gives a tree exactly if the grammar derives the
tokens with it in no more levels, and with no other tree. -/
theorem parse_eq_ok_iff_grammar {limit : Int64} {tokens : List Token}
    (hmin : -0x8000000000000000 ≤ 2 * limit.toInt + 2)
    (hmax : 2 * limit.toInt + 2 < 0x8000000000000000)
    (hk : ∀ t ∈ tokens, t.kind ∈ [.number, .vector, .verb, .leftParen, .rightParen]) :
    (∀ tree, parse limit tokens = .ok tree ↔
      ∃ n : Nat, Derives .expression n tokens tree ∧ (n : Int) ≤ 2 * limit.toInt + 2) ∧
    ∀ m n t u, Derives .expression m tokens t → Derives .expression n tokens u → t = u := by
  have hguard : (2 * limit + 2).toInt = 2 * limit.toInt + 2 := toInt_guard_of_lt hmin hmax
  have hend : ∀ t ∈ tokens, t.kind ≠ .eof := by
    intro t ht he
    simpa [he] using hk t ht
  constructor
  · intro tree
    rw [parse_eq_ok_iff_derives hend, hguard]
  · intro m n t u ht hu
    exact (ht.unique hu).2

/-- A verb between two operands whose right one starts with a verb: `1+~2`. -/
theorem derives_sum_of_iota : ∃ n : Nat, Derives .expression n
    [⟨.number, 0, [49]⟩, ⟨.verb, 1, [43]⟩, ⟨.verb, 2, [126]⟩, ⟨.number, 3, [50]⟩]
    (.dyad (.literal (.scalar 1) 0) 43 (.monad 126 (.literal (.scalar 2) 3) 2) 1) ∧
      (n : Int) ≤ 2 * (1000 : Int64).toInt + 2 :=
  ((parse_eq_ok_iff_grammar (by decide) (by decide) (by decide)).1 _).mp rfl

end Ravel.Tree
