import Ravel.Tree.Parse

/-!
# The grammar of expressions

`Derives` is the grammar

    expression := term (verb expression)?
    term       := verb term | literal | ( expression )

with the tree of each derivation and the levels that a recursive descent through it nests. A verb
is monadic or dyadic by its place alone: it is dyadic exactly if a term stands before it. Tokens
have therefore at most one derivation (`Derives.unique`).
-/

namespace Ravel.Tree

/-- The phrases of the grammar. -/
inductive Phrase where
  | expression
  | term
  deriving DecidableEq

/-- The derivations of a phrase: the levels it nests, its tokens and its tree. An expression takes
one level, and so does a verb with nothing on its left. -/
inductive Derives : Phrase → Nat → List Token → Tree → Prop where
  | literal {t : Token} {a : Noun} (hk : t.kind = .number ∨ t.kind = .vector)
      (ha : Noun.ofLiteral t.text = .ok a) : Derives .term 0 [t] (.literal a t.offset)
  | monad {v : Token} {mark : UInt8} {n : Nat} {ts : List Token} {r : Tree} (hk : v.kind = .verb)
      (hm : v.text.head? = some mark) (hr : Derives .term n ts r) :
      Derives .term (n + 1) (v :: ts) (.monad mark r v.offset)
  | paren {opening closing : Token} {n : Nat} {ts : List Token} {e : Tree}
      (ho : opening.kind = .leftParen) (hc : closing.kind = .rightParen)
      (he : Derives .expression n ts e) :
      Derives .term n (opening :: (ts ++ [closing])) (.paren e opening.offset)
  | single {n : Nat} {ts : List Token} {t : Tree} (ht : Derives .term n ts t) :
      Derives .expression (n + 1) ts t
  | dyad {v : Token} {mark : UInt8} {m n : Nat} {ts us : List Token} {l r : Tree}
      (hl : Derives .term m ts l) (hk : v.kind = .verb) (hm : v.text.head? = some mark)
      (hr : Derives .expression n us r) :
      Derives .expression (max m n + 1) (ts ++ v :: us) (.dyad l mark r v.offset)

/-- An expression takes at least one level. -/
theorem Derives.levels_pos {n : Nat} {ts : List Token} {t : Tree}
    (h : Derives .expression n ts t) : 0 < n := by
  cases h with
  | single ht => exact Nat.succ_pos _
  | dyad hl hk hm hr => exact Nat.succ_pos _

/-! ### One derivation at most -/

/-- Tokens that do not go on with a verb. -/
def NoVerbNext (rest : List Token) : Prop := ∀ v ∈ rest.head?, v.kind ≠ .verb

private theorem noVerbNext_nil : NoVerbNext [] := by
  intro v hv
  cases hv

private theorem noVerbNext_cons {v : Token} {rest : List Token} (h : v.kind ≠ .verb) :
    NoVerbNext (v :: rest) := by
  rintro _ ⟨⟩
  exact h

/-- Two derivations of a phrase at the start of the same tokens are of the same tokens and the same
tree, for an expression if it is as long as it can be. -/
private theorem Derives.unique_prefix {p : Phrase} {n m : Nat} {ts us r s : List Token} {t u : Tree}
    (ht : Derives p n ts t) (hu : Derives p m us u) (h : ts ++ r = us ++ s)
    (hr : p = .expression → NoVerbNext r ∧ NoVerbNext s) : ts = us ∧ n = m ∧ t = u := by
  induction ht generalizing m us r s u with
  | literal hk ha =>
    cases hu with
    | literal hk' ha' =>
      obtain ⟨rfl, -⟩ := List.cons.inj h
      rw [ha] at ha'
      cases ha'
      exact ⟨rfl, rfl, rfl⟩
    | monad hk' hm' hr' =>
      obtain ⟨rfl, -⟩ := List.cons.inj h
      simp [hk'] at hk
    | paren ho' hc' he' =>
      obtain ⟨rfl, -⟩ := List.cons.inj h
      simp [ho'] at hk
  | monad hk hm hd ih =>
    cases hu with
    | literal hk' ha' =>
      obtain ⟨rfl, -⟩ := List.cons.inj h
      simp [hk] at hk'
    | monad hk' hm' hd' =>
      obtain ⟨rfl, htail⟩ := List.cons.inj h
      obtain ⟨rfl, rfl, rfl⟩ := ih hd' htail (by simp)
      rw [hm] at hm'
      cases hm'
      exact ⟨rfl, rfl, rfl⟩
    | paren ho' hc' he' =>
      obtain ⟨rfl, -⟩ := List.cons.inj h
      rw [hk] at ho'
      cases ho'
  | paren ho hc he ih =>
    cases hu with
    | literal hk' ha' =>
      obtain ⟨rfl, -⟩ := List.cons.inj h
      simp [ho] at hk'
    | monad hk' hm' hd' =>
      obtain ⟨rfl, -⟩ := List.cons.inj h
      rw [ho] at hk'
      cases hk'
    | paren ho' hc' he' =>
      rw [List.cons_append, List.cons_append, List.append_assoc, List.append_assoc] at h
      obtain ⟨rfl, htail⟩ := List.cons.inj h
      obtain ⟨rfl, rfl, rfl⟩ := ih he' htail fun _ ↦
        ⟨noVerbNext_cons (by rw [hc]; nofun), noVerbNext_cons (by rw [hc']; nofun)⟩
      obtain ⟨rfl, -⟩ := List.cons.inj (List.append_cancel_left htail)
      exact ⟨rfl, rfl, rfl⟩
  | single hd ih =>
    cases hu with
    | single hd' =>
      obtain ⟨rfl, rfl, rfl⟩ := ih hd' h (by simp)
      exact ⟨rfl, rfl, rfl⟩
    | dyad hl' hk' hm' hd' =>
      -- after the term no verb can follow on one side, and one does on the other
      rw [List.append_assoc] at h
      obtain ⟨rfl, -, -⟩ := ih hl' h (by simp)
      have hs := List.append_cancel_left h
      subst hs
      exact absurd hk' ((hr rfl).1 _ rfl)
  | dyad hl hk hm hd ihl ihr =>
    rw [List.append_assoc] at h
    cases hu with
    | single hd' =>
      obtain ⟨rfl, -, -⟩ := ihl hd' h (by simp)
      have hs := List.append_cancel_left h
      subst hs
      exact absurd hk ((hr rfl).2 _ rfl)
    | dyad hl' hk' hm' hd' =>
      rw [List.append_assoc] at h
      obtain ⟨rfl, rfl, rfl⟩ := ihl hl' h (by simp)
      obtain ⟨rfl, htail⟩ := List.cons.inj (List.append_cancel_left h)
      obtain ⟨rfl, rfl, rfl⟩ := ihr hd' htail hr
      rw [hm] at hm'
      cases hm'
      exact ⟨rfl, rfl, rfl⟩

/-- Tokens have at most one derivation as an expression. -/
theorem Derives.unique {n m : Nat} {ts : List Token} {t u : Tree}
    (ht : Derives .expression n ts t) (hu : Derives .expression m ts u) : n = m ∧ t = u :=
  (ht.unique_prefix hu rfl fun _ ↦ ⟨noVerbNext_nil, noVerbNext_nil⟩).2

end Ravel.Tree
