import Ravel.Proofs.Errors
import Ravel.Proofs.Tokenization
import Ravel.Proofs.Viability

/-!
# Where diagnostics point

An offset that an error carries is a place of the source, and what the error names stands there
(`Text.HasAt`). Tokens are sections of their source, the parser blames tokens that it has met or the
end of the input (`ParseError.Blames`), and the nodes of a tree, in the order in which they are
written, are its tokens but for right parentheses (`Tree.Derives.signs_eq`). A verb that resolving
refuses is a node of the tree, so that its mark is the byte at its offset.
-/

namespace Ravel

/-- A part of a source stands at an offset. -/
def Text.HasAt (source : Text) (offset : Int) (part : Text) : Prop :=
  ∃ before after, source = before ++ part ++ after ∧ offset = before.length

/-! ### Errors of scanning -/

/-- The text of a bad place stands at its offset. -/
private theorem Token.Bad.hasAt {source : Text} {e : ScanError} (h : Bad source e) :
    e.text ≠ [] ∧ source.HasAt e.offset e.text := by
  cases h with
  | @character before after g hs hg =>
    constructor
    · exact List.length_pos_iff.mp g.width_pos
    · refine ⟨Text.ofGlyphs before, Text.ofGlyphs after, ?_, rfl⟩
      rw [← source.ofGlyphs_glyphs, hs]
      simp [Text.ofGlyphs]
  | @number before group after hs hd hl hr hv => exact ⟨hd.nonempty, before, after, hs, rfl⟩

private theorem Token.bad_of_scan {source : Text} {e : ScanError}
    (h : (scan source).error = some e) :
    Bad source e := by
  have hreports := (scans_scanFrom 0 source).reports
  rw [show scanFrom 0 source = scan source from rfl, h] at hreports
  obtain ⟨x, hx, rfl⟩ := hreports
  simpa [ScanError.moved] using hx.bad

/-! ### Signs of a source -/

/-- What stands for a node of a tree in the source. -/
inductive Sign where
  | literal (value : Noun)
  | verb (mark : UInt8)
  | opening
  deriving DecidableEq, Repr

/-- A sign stands in a source at an offset: a text that denotes the noun, the mark of the verb, or a
left parenthesis. -/
def Sign.StandsAt (source : Text) (offset : Int) : Sign → Prop
  | .literal value => ∃ text, source.HasAt offset text ∧ Noun.ofLiteral text = .ok value
  | .verb mark => source.HasAt offset [mark]
  | .opening => source.HasAt offset [40]

/-- The nodes of a tree with their offsets, in the order in which they are written. -/
def Tree.signs : Tree → List (Sign × Int)
  | .literal value offset => [(.literal value, offset)]
  | .monad mark right offset => (.verb mark, offset) :: right.signs
  | .dyad left mark right offset => left.signs ++ (.verb mark, offset) :: right.signs
  | .paren inner offset => (.opening, offset) :: inner.signs
  | .hole => []

/-- The sign that a token is, with its offset. A right parenthesis is the sign of no node. -/
def Token.sign? (t : Token) : Option (Sign × Int) :=
  match t.kind with
  | .number | .vector => (Noun.ofLiteral t.text).toOption.map fun a ↦ (.literal a, t.offset)
  | .verb => t.text.head?.map fun mark ↦ (.verb mark, t.offset)
  | .leftParen => some (.opening, t.offset)
  | _ => none

/-- The nodes of a tree are the tokens that it is derived from. -/
theorem Tree.Derives.signs_eq {p : Phrase} {n : Nat} {ts : List Token} {t : Tree}
    (h : Derives p n ts t) : t.signs = ts.filterMap Token.sign? := by
  induction h with
  | literal hk ha => rcases hk with hk | hk <;> simp [signs, Token.sign?, hk, ha, Except.toOption]
  | monad hk hm hr ih => simp [signs, Token.sign?, hk, hm, ih]
  | paren ho hc he ih => simp [signs, Token.sign?, ho, hc, ih]
  | single ht ih => exact ih
  | dyad hl hk hm hr ihl ihr => simp [signs, Token.sign?, hk, hm, ihl, ihr]

/-- The sign of a token of a source stands at its offset. -/
private theorem Token.Lays.standsAt {source : Text} {tokens : List Token} (h : Lays 0 source tokens)
    {t : Token} (ht : t ∈ tokens) {sign : Sign} {offset : Int}
    (hs : t.sign? = some (sign, offset)) : sign.StandsAt source offset := by
  obtain ⟨before, after, hsource, ho, hstands⟩ := h.sections t ht
  have hat : source.HasAt t.offset t.text := ⟨before, after, hsource, by rw [ho, Nat.zero_add]⟩
  have hliteral (hk : t.kind = .number ∨ t.kind = .vector) : sign.StandsAt source offset := by
    have hs : (Noun.ofLiteral t.text).toOption.map (fun a ↦ (Sign.literal a, t.offset)) =
        some (sign, offset) := by
      rcases hk with hk | hk <;> simpa only [sign?, hk] using hs
    obtain ⟨a, ha, hx⟩ := Option.map_eq_some_iff.mp hs
    cases hx
    cases hv : Noun.ofLiteral t.text with
    | error x =>
      rw [hv] at ha
      cases ha
    | ok b =>
      rw [hv] at ha
      cases ha
      exact ⟨t.text, hat, hv⟩
  obtain ⟨kind, _, text⟩ := t
  cases hstands with
  | number hd hl hr => exact hliteral (.inl rfl)
  | vector hrow h2 hl hr => exact hliteral (.inr rfl)
  | mark hb =>
    cases hb with
    | verb hb =>
      cases hs
      exact hat
    | leftParen =>
      cases hs
      exact hat
    | rightParen => cases hs

/-! ### Errors of the parser -/

/-- The parser blames a token that it has met, or the end of the input. -/
inductive ParseError.Blames (tokens : List Token) (stop : Int) : ParseError → Prop where
  | misplaced {kind : ParseError.Kind} {t : Token} (ht : t ∈ tokens ∨ t = Token.endAt stop) :
      Blames tokens stop (.misplaced kind t)
  | tooDeep {limit : Int64} {t : Token} (ht : t ∈ tokens ∨ t = Token.endAt stop) :
      Blames tokens stop (.tooDeep limit t.offset)

namespace Tree

variable {limit : Int64} {stop : Int} {frames frames' inner : List Frame} {term term' : Option Tree}
  {t u : Tree} {token : Token} {tokens rest : List Token} {e : ParseError}

private theorem opens_of_closeMonads (h : closeMonads frames t = .ok (inner, u)) :
    opens inner = opens frames := by
  fun_induction closeMonads frames t with
  | case1 mark offset frames t ih => simpa [opens] using ih h
  | case2 => cases h
  | case3 frames t => cases h; rfl

/-- A step opens no other parenthesis than its token. -/
private theorem Step.mem_opens (hs : Step limit token frames term frames' term') {opening : Token}
    (h : opening ∈ opens frames') : opening = token ∨ opening ∈ opens frames := by
  cases hs with
  | monad hk hg => exact .inr (by simpa [opens] using h)
  | opening hk hg => simpa [opens] using h
  | dyad hk hg => exact .inr (by simpa [opens] using h)
  | literal hk ha hm => exact .inr (by rwa [← opens_of_closeMonads hm])
  | closing hk hd hm =>
    rw [opens_of_closeMonads hm] at h
    rw [← opens_of_closeDyads hd]
    exact .inr (by simp only [opens, List.filterMap_cons, List.mem_cons]; exact .inr h)

/-- The end of a parse at a token blames the token or an open parenthesis. -/
private theorem finish_eq_error (h : finish token frames term = .error (.error e)) :
    ∃ kind blamed, e = .misplaced kind blamed ∧ (blamed = token ∨ blamed ∈ opens frames) := by
  have hunexpected (hx : e = .unexpected token) :
      ∃ kind blamed, e = .misplaced kind blamed ∧ (blamed = token ∨ blamed ∈ opens frames) :=
    ⟨_, token, hx, .inl rfl⟩
  cases term with
  | none =>
    cases h
    exact hunexpected rfl
  | some t =>
    rw [finish] at h
    cases hd : closeDyads frames t with
    | error f =>
      rw [hd] at h
      cases h
    | ok p =>
      obtain ⟨inner, u⟩ := p
      have hopens := opens_of_closeDyads hd
      rw [hd] at h
      cases inner with
      | nil =>
        dsimp only at h
        split at h
        · cases h
        · cases h
          exact ⟨_, token, rfl, .inl rfl⟩
        · cases h
          exact hunexpected rfl
      | cons frame outer =>
        cases frame with
        | monad mark offset =>
          cases h
          exact hunexpected rfl
        | dyad left mark offset =>
          cases h
          exact hunexpected rfl
        | paren opening =>
          dsimp only at h
          split at h
          · cases h
            exact ⟨_, opening, rfl, .inr (by rw [← hopens]; exact List.mem_cons_self)⟩
          · cases h
            exact hunexpected rfl

private theorem upcoming_cases (stop : Int) (rest : List Token) :
    upcoming stop rest ∈ rest ∨ upcoming stop rest = Token.endAt stop := by
  cases rest with
  | nil => exact .inr rfl
  | cons token rest => exact .inl List.mem_cons_self

/-- A parse that goes on blames one of the tokens, if the tokens to come and the parentheses that
are open are among them. -/
private theorem blames_of_parseLoop (hopens : ∀ o ∈ opens frames, o ∈ tokens)
    (hrest : ∀ r ∈ rest, r ∈ tokens)
    (h : parseLoop limit stop frames term rest = .error (.error e)) : e.Blames tokens stop := by
  induction rest generalizing frames term with
  | nil =>
    obtain ⟨kind, blamed, rfl, hb | hb⟩ := finish_eq_error h
    · exact .misplaced (.inr hb)
    · exact .misplaced (.inl (hopens blamed hb))
  | cons token rest ih =>
    obtain ⟨htoken, hlater⟩ := List.forall_mem_cons.mp hrest
    have hturn := turn_parseLoop limit stop frames term token rest
    rw [h] at hturn
    generalize hr : (Except.error (Halt.error e) : Except (Halt ParseError) Tree) = r at hturn
    cases hturn with
    | step hs =>
      refine ih (fun o ho ↦ ?_) hlater hr.symm
      rcases hs.mem_opens ho with rfl | ho
      · exact htoken
      · exact hopens o ho
    | finish =>
      obtain ⟨kind, blamed, rfl, hb | hb⟩ := finish_eq_error hr.symm
      · exact .misplaced (.inl (hb ▸ htoken))
      · exact .misplaced (.inl (hopens blamed hb))
    | error hx =>
      cases hr
      cases hx with
      | literal => exact .misplaced (.inl htoken)
      | @guard t ht =>
        refine .tooDeep ?_
        rcases ht with rfl | rfl
        · exact .inl htoken
        · exact (upcoming_cases stop rest).imp_left (hlater _)
    | fault hb => cases hr

private theorem blames_of_parse (h : parse limit tokens = .error (.error e)) :
    e.Blames tokens (Token.endOffset tokens) := by
  unfold parse at h
  dsimp only at h
  split at h
  · exact blames_of_parseLoop (by simp [opens]) (fun _ hr ↦ hr) h
  · cases h
    exact .tooDeep (upcoming_cases _ tokens)

/-! ### Errors of resolving -/

/-- A verb that is refused is a node of the tree. -/
private theorem mem_signs_of_resolve {x : SemanticError} {c : Context}
    (h : (t.resolve c).1 = .error (.form x)) : (.verb x.mark, x.offset) ∈ t.signs := by
  induction t generalizing c with
  | literal value offset => cases h
  | hole => cases h
  | paren inner offset ih =>
    rw [resolve] at h
    rcases deeper_eq_error h with hx | ⟨c', hc⟩
    · cases hx
    · exact List.mem_cons_of_mem _ (ih hc)
  | monad mark right offset ih =>
    rcases resolve_monad_eq_error h with hx | ⟨c', hr⟩ | ⟨-, hx⟩
    · cases hx
    · exact List.mem_cons_of_mem _ (ih hr)
    · cases hx
      exact List.mem_cons_self
  | dyad left mark right offset ihl ihr =>
    rcases resolve_dyad_eq_error h with hx | ⟨c', hr⟩ | ⟨c', hl⟩ | ⟨-, hx⟩
    · cases hx
    · exact List.mem_append_right _ (List.mem_cons_of_mem _ (ihr hr))
    · exact List.mem_append_left _ (ihl hl)
    · cases hx
      exact List.mem_append_right _ List.mem_cons_self

end Tree

/-! ### The end of the input -/

/-- An offset is just past the last of some tokens, or 0 if there is none. -/
def Token.JustPast (tokens : List Token) (offset : Int) : Prop :=
  (tokens = [] → offset = 0) ∧ ∀ t ∈ tokens.getLast?, offset = t.offset + t.text.length

/-- The end of the input is just past the last token, in a source whose length is a 64-bit
integer. -/
private theorem Token.Lays.justPast {source : Text} {tokens : List Token} (h : Lays 0 source tokens)
    (hsize : source.length < 0x8000000000000000) : JustPast tokens (endOffset tokens) := by
  constructor
  · rintro rfl
    rfl
  · intro t ht
    obtain ⟨before, after, hsource, ho, -⟩ := h.sections t (List.mem_of_getLast? ht)
    have hlength : before.length + t.text.length ≤ source.length := by
      rw [hsource, List.length_append, List.length_append]
      omega
    rw [endOffset, ht]
    exact Int64.toInt_ofInt_of_le (by omega) (by omega)

namespace Settings

variable {source : Text}

private theorem lays_of_scan (h : (Token.scan source).error = none) :
    Token.Lays 0 source (Token.scan source).tokens :=
  (Token.scans_scanFrom 0 source).lays h

private theorem hasAt_of_mem_tokens (h : (Token.scan source).error = none) {t : Token}
    (ht : t ∈ (Token.scan source).tokens) : t.text ≠ [] ∧ source.HasAt t.offset t.text := by
  obtain ⟨before, after, hsource, ho, hstands⟩ := (lays_of_scan h).sections t ht
  exact ⟨hstands.nonempty, before, after, hsource, by rw [ho, Nat.zero_add]⟩

/-- The nodes of the tree of a source are its tokens, and stand where they do. -/
private theorem signs_of_parse {limit : Int64} {tree : Tree} (h : (Token.scan source).error = none)
    (hp : Tree.parse limit (Token.scan source).tokens = .ok tree) :
    tree.signs = (Token.scan source).tokens.filterMap Token.sign? ∧
    ∀ sign offset, (sign, offset) ∈ tree.signs → sign.StandsAt source offset := by
  obtain ⟨n, hd, -⟩ :=
    (Tree.parse_eq_ok_iff_derives fun _ ht ↦ Token.kind_ne_eof_of_mem_tokens ht).mp hp
  refine ⟨hd.signs_eq, ?_⟩
  intro sign offset hm
  rw [hd.signs_eq] at hm
  obtain ⟨t, ht, hs⟩ := List.mem_filterMap.mp hm
  exact (lays_of_scan h).standsAt ht hs

/-- What an error or a node of a tree names stands at its offset in the source. -/
theorem diagnostics_located (s : Settings) (source : Text) :
    (∀ e, (s.run source).result = .error (.error (.tokenize e)) →
      e.text ≠ [] ∧ source.HasAt e.offset e.text) ∧
    (∀ kind token, (s.run source).result = .error (.error (.parse (.misplaced kind token))) →
      (token.kind ≠ .eof → token.text ≠ [] ∧ source.HasAt token.offset token.text) ∧
      (token.kind = .eof → source.length < 0x8000000000000000 →
        Token.JustPast (Token.scan source).tokens token.offset)) ∧
    (∀ limit offset, (s.run source).result = .error (.error (.parse (.tooDeep limit offset))) →
      (∃ token ∈ (Token.scan source).tokens, token.offset = offset ∧
        source.HasAt offset token.text) ∨
      (source.length < 0x8000000000000000 →
        Token.JustPast (Token.scan source).tokens offset)) ∧
    (∀ e, (s.run source).result = .error (.error (.semantic (.form e))) →
      source.HasAt e.offset [e.mark]) ∧
    ∀ limit tokens tree, Token.tokenize source = .ok tokens → Tree.parse limit tokens = .ok tree →
      tree.signs = tokens.filterMap Token.sign? ∧
      ∀ sign offset, (sign, offset) ∈ tree.signs → sign.StandsAt source offset := by
  refine ⟨?scanning, ?misplaced, ?tooDeep, ?form, ?tree⟩
  case scanning =>
    intro e h
    rcases stage_of_run h with ⟨_, ⟨⟩, hs⟩ | ⟨_, ⟨⟩, -⟩ | ⟨_, _, ⟨⟩, -⟩ | ⟨_, _, ⟨⟩, -⟩
    exact (Token.bad_of_scan hs).hasAt
  case misplaced =>
    intro kind token h
    rcases stage_of_run h with ⟨_, ⟨⟩, -⟩ | ⟨_, ⟨⟩, hs, hp⟩ | ⟨_, _, ⟨⟩, -⟩ | ⟨_, _, ⟨⟩, -⟩
    cases Tree.blames_of_parse hp with
    | misplaced ht =>
      rcases ht with ht | rfl
      · have hk := Token.kind_ne_eof_of_mem_tokens ht
        exact ⟨fun _ ↦ hasAt_of_mem_tokens hs ht, fun he ↦ absurd he hk⟩
      · exact ⟨fun hk ↦ absurd rfl hk, fun _ hsize ↦ (lays_of_scan hs).justPast hsize⟩
  case tooDeep =>
    intro limit offset h
    rcases stage_of_run h with ⟨_, ⟨⟩, -⟩ | ⟨_, ⟨⟩, hs, hp⟩ | ⟨_, _, ⟨⟩, -⟩ | ⟨_, _, ⟨⟩, -⟩
    cases Tree.blames_of_parse hp with
    | @tooDeep limit token ht =>
      rcases ht with ht | rfl
      · exact .inl ⟨token, ht, rfl, (hasAt_of_mem_tokens hs ht).2⟩
      · exact .inr fun hsize ↦ (lays_of_scan hs).justPast hsize
  case form =>
    intro e h
    rcases stage_of_run h with ⟨_, ⟨⟩, -⟩ | ⟨_, ⟨⟩, -⟩ | ⟨_, tree, ⟨⟩, hs, hp, hr⟩ | ⟨_, _, ⟨⟩, -⟩
    exact (signs_of_parse hs hp).2 _ _ (Tree.mem_signs_of_resolve hr)
  case tree =>
    intro limit tokens tree ht hp
    unfold Token.tokenize at ht
    split at ht
    · next hs =>
      cases ht
      have hscan := @signs_of_parse source limit tree
      rw [hs] at hscan
      exact hscan rfl hp
    · cases ht

/-- `1+12 ?` ends at its last byte, `(1+` at its end, and `1+-1` at its second verb. -/
theorem diagnostics_located_bytes :
    (Text.ofString "1+12 ?").HasAt 5 (Text.ofString "?") ∧
    Token.JustPast [⟨.leftParen, 0, [40]⟩, ⟨.number, 1, [49]⟩, ⟨.verb, 2, [43]⟩] 3 ∧
    (Text.ofString "1+-1").HasAt 2 [45] := by
  obtain ⟨hscan, -, -, -, -⟩ := diagnostics_located {} (Text.ofString "1+12 ?")
  obtain ⟨-, hparse, -, -, -⟩ := diagnostics_located {} (Text.ofString "(1+")
  obtain ⟨-, -, -, hform, -⟩ := diagnostics_located {} (Text.ofString "1+-1")
  refine ⟨?_, ?_, ?_⟩
  · exact (hscan ⟨.unrecognizedCharacter, 5, Text.ofString "?"⟩ rfl).2
  · exact (hparse .unexpectedEndOfInput (Token.endAt 3) rfl).2 rfl (by decide)
  · exact hform ⟨.noMonadicForm, 45, 2⟩ rfl

end Settings

end Ravel
