/-
The text in which a tree is shown tells which tree it is.

No lexeme of a regular tree has a space or a parenthesis in it, so a lexeme ends where the next of
these stands, and it is the lexeme of one token only (`lexeme_append_inj`). An opening parenthesis
tells a node with operands from a leaf, and the operator tells how many operands there are. So,
by induction over the tree, its text ends at one place, whatever is shown behind it
(`Node.Regular.render_append_inj`). Main statement: `parseExpression_of_render_eq`.
-/
import Condition.Proofs.AlikeTokens

namespace Condition

/-! ## Labels -/

/-- The characters that stand between the labels of a shown tree. -/
def isDelimiter (c : Char) : Bool := c = ' ' || c = '(' || c = ')'

/-- The text is at its end or goes on with a delimiter. -/
def Delimited (cs : List Char) : Prop := ∀ c ∈ cs.head?, isDelimiter c = true

theorem delimited_nil : Delimited [] := by simp [Delimited]

theorem delimited_cons {c : Char} (h : isDelimiter c = true) (cs : List Char) :
    Delimited (c :: cs) := by
  simpa [Delimited] using h

theorem isDelimiter_of_isWordChar {c : Char} (h : isWordChar c = true) :
    isDelimiter c = false := by
  refine Bool.eq_false_iff.2 fun hd => ?_
  simp only [isDelimiter, Bool.or_eq_true, decide_eq_true_eq] at hd
  rcases hd with (rfl | rfl) | rfl <;> revert h <;> decide

theorem isDelimiter_of_mem_symbol {k : TokenKind} {symbol : String} (h : k.symbol? = some symbol)
    (hk : k = .not ∨ ∃ o, k = .operator o) : ∀ c ∈ symbol.toList, isDelimiter c = false := by
  have hall : symbol.toList.all (!isDelimiter ·) = true := by
    rcases hk with rfl | ⟨o, rfl⟩
    · cases h; rfl
    · cases o with
      | arithmetic a => cases a <;> cases h <;> rfl
      | comparison a => cases a <;> cases h <;> rfl
      | connective a => cases a <;> cases h <;> rfl
  simpa using hall

/-- A token that can be the label of a node in the text of a tree. -/
structure Token.Labels (t : Token) : Prop where
  wellFormed : t.WellFormed
  solid : ∀ c ∈ t.lexeme, isDelimiter c = false

theorem Node.Regular.labels {n : Node} (h : n.Regular) : n.token.Labels := by
  cases h with
  | @leaf t hwf hk =>
    refine ⟨hwf, fun c hc => isDelimiter_of_isWordChar ?_⟩
    rw [Token.WellFormed] at hwf
    rcases hk with hk | hk <;>
      rw [token, lexeme_of_text (by rw [hk]; rfl)] at hc <;> rw [hk] at hwf
    · exact isWordChar_of_isDigit (hwf.2 c hc)
    · exact hwf.2.1 c hc
  | @negation t n hwf hk =>
    have hsymbol : t.kind.symbol? = some "NOT" := by rw [hk]; rfl
    refine ⟨hwf, ?_⟩
    rw [token, lexeme_of_symbol hsymbol]
    exact isDelimiter_of_mem_symbol hsymbol (.inl hk)
  | @binary t o l r hwf hk =>
    have hsymbol : t.kind.symbol? = some o.symbol := by rw [hk]; rfl
    refine ⟨hwf, ?_⟩
    rw [token, lexeme_of_symbol hsymbol]
    exact isDelimiter_of_mem_symbol hsymbol (.inr ⟨o, hk⟩)

/-- Read alone, a lexeme gives its token, so no two tokens share one. -/
theorem Token.bare_eq_of_lexeme {t u : Token} (ht : t.WellFormed) (hu : u.WellFormed)
    (h : t.lexeme = u.lexeme) : t.bare = u.bare := by
  have hread : ∀ {t : Token}, t.WellFormed → (Scanner.read ⟨t.lexeme, 0⟩).1 = .ok t.bare := by
    intro t ht
    have hbare : t.bare.WellFormed := ht
    have := Scanner.read_lexeme hbare (show t.kind.Stops [] by simp [TokenKind.Stops])
    rw [List.append_nil] at this
    exact congrArg Prod.fst this
  have hsame := hread ht
  rw [h, hread hu] at hsame
  exact (Except.ok.inj hsame).symm

theorem lexeme_append_inj {t u : Token} {as bs : List Char} (ht : t.Labels) (hu : u.Labels)
    (ha : Delimited as) (hb : Delimited bs) (h : t.lexeme ++ as = u.lexeme ++ bs) :
    t.bare = u.bare ∧ as = bs := by
  have htake : ∀ {w cs : List Char}, (∀ c ∈ w, isDelimiter c = false) → Delimited cs →
      (w ++ cs).takeWhile (!isDelimiter ·) = w := fun hw hcs =>
    Scanner.takeWhile_append (by simpa using hw) (by simpa [Delimited] using hcs)
  have hlexeme : t.lexeme = u.lexeme := by
    rw [← htake ht.solid ha, h, htake hu.solid hb]
  rw [hlexeme] at h
  exact ⟨Token.bare_eq_of_lexeme ht.wellFormed hu.wellFormed hlexeme, List.append_cancel_left h⟩

theorem Token.Labels.ne_open {t : Token} (h : t.Labels) (as bs : List Char) :
    t.lexeme ++ as ≠ '(' :: bs := by
  obtain ⟨c, cs, hlexeme, -⟩ := h.wellFormed.begins
  have hsolid := h.solid c (by simp [hlexeme])
  rw [hlexeme]
  rintro ⟨rfl⟩
  cases hsolid

/-! ## Trees -/

namespace Node

theorem toList_render_unary (t : Token) (l : Node) (as : List Char) :
    (unary t l).render.toList ++ as =
      '(' :: (t.lexeme ++ ' ' :: (l.render.toList ++ ')' :: as)) := by
  simp [render, Token.lexeme]

theorem toList_render_binary (t : Token) (l r : Node) (as : List Char) :
    (binary t l r).render.toList ++ as =
      '(' :: (t.lexeme ++ ' ' :: (l.render.toList ++ ' ' :: (r.render.toList ++ ')' :: as))) := by
  simp [render, Token.lexeme]

/-- Two nodes with operands that are shown alike have the same token at their roots. -/
theorem open_append_inj {t u : Token} {as bs : List Char} (ht : t.Labels) (hu : u.Labels)
    (h : '(' :: (t.lexeme ++ ' ' :: as) = '(' :: (u.lexeme ++ ' ' :: bs)) :
    t.bare = u.bare ∧ as = bs := by
  have hspace := delimited_cons (c := ' ') rfl
  obtain ⟨htoken, hrest⟩ := lexeme_append_inj ht hu (hspace as) (hspace bs) (List.cons.inj h).2
  exact ⟨htoken, (List.cons.inj hrest).2⟩

/-- The text of a tree ends at one place, and no other tree has it. -/
theorem Regular.render_append_inj {n m : Node} {as bs : List Char} (hn : n.Regular)
    (hm : m.Regular) (ha : Delimited as) (hb : Delimited bs)
    (h : n.render.toList ++ as = m.render.toList ++ bs) : n.bare = m.bare ∧ as = bs := by
  have hspace := delimited_cons (c := ' ') rfl
  have hclose := delimited_cons (c := ')') rfl
  induction hn generalizing m as bs with
  | @leaf t hwf hk =>
    have ht : t.Labels := (Regular.leaf hwf hk).labels
    cases hm with
    | @leaf u hwf' hk' =>
      have hu : u.Labels := (Regular.leaf hwf' hk').labels
      obtain ⟨htoken, hrest⟩ := lexeme_append_inj ht hu ha hb h
      exact ⟨by rw [bare, bare, htoken], hrest⟩
    | negation =>
      rw [toList_render_unary] at h
      exact absurd h (ht.ne_open _ _)
    | binary =>
      rw [toList_render_binary] at h
      exact absurd h (ht.ne_open _ _)
  | @negation t l hwf hk hl ih =>
    have ht : t.Labels := (Regular.negation hwf hk hl).labels
    rw [toList_render_unary] at h
    cases hm with
    | leaf hwf' hk' => exact absurd h.symm ((Regular.leaf hwf' hk').labels.ne_open _ _)
    | @negation u m hwf' hk' hm =>
      have hu : u.Labels := (Regular.negation hwf' hk' hm).labels
      rw [toList_render_unary] at h
      obtain ⟨htoken, h⟩ := open_append_inj ht hu h
      obtain ⟨hoperand, h⟩ := ih hm (hclose _) (hclose _) h
      exact ⟨by rw [bare, bare, htoken, hoperand], (List.cons.inj h).2⟩
    | @binary u o l' r' hwf' hk' hl' hr' =>
      have hu : u.Labels := (Regular.binary hwf' hk' hl' hr').labels
      rw [toList_render_binary] at h
      have hkind := (Token.bare_eq_iff.1 (open_append_inj ht hu h).1).1
      rw [hk, hk'] at hkind
      cases hkind
  | @binary t o l r hwf hk hl hr ihl ihr =>
    have ht : t.Labels := (Regular.binary hwf hk hl hr).labels
    rw [toList_render_binary] at h
    cases hm with
    | leaf hwf' hk' => exact absurd h.symm ((Regular.leaf hwf' hk').labels.ne_open _ _)
    | @negation u m hwf' hk' hm =>
      have hu : u.Labels := (Regular.negation hwf' hk' hm).labels
      rw [toList_render_unary] at h
      have hkind := (Token.bare_eq_iff.1 (open_append_inj ht hu h).1).1
      rw [hk, hk'] at hkind
      cases hkind
    | @binary u o' l' r' hwf' hk' hl' hr' =>
      have hu : u.Labels := (Regular.binary hwf' hk' hl' hr').labels
      rw [toList_render_binary] at h
      obtain ⟨htoken, h⟩ := open_append_inj ht hu h
      obtain ⟨hleft, h⟩ := ihl hl' (hspace _) (hspace _) h
      obtain ⟨hright, h⟩ := ihr hr' (hclose _) (hclose _) (List.cons.inj h).2
      exact ⟨by rw [bare, bare, htoken, hleft, hright], (List.cons.inj h).2⟩

end Node

/-- **The text of a tree identifies it.** Two texts whose trees are shown alike are read as the
same tree but for the places of tokens, so they have the same value or the same error, whatever
the variables. -/
theorem parseExpression_of_render_eq {a b : String} {m n : Node}
    (ha : parseExpression a = .ok m) (hb : parseExpression b = .ok n)
    (h : m.render = n.render) :
    m.bare = n.bare ∧ ∀ vars, evaluateValue a vars = evaluateValue b vars := by
  have hm := (writable_of_parseExpression ha).regular
  have hn := (writable_of_parseExpression hb).regular
  obtain ⟨hbare, -⟩ := hm.render_append_inj hn delimited_nil delimited_nil (by rw [h])
  refine ⟨hbare, fun vars => ?_⟩
  have hsame := (Node.related_bare_iff.2 hbare).evaluate_eq fun h => step_eq_of_bare vars h
  simpa only [evaluateValue, ha, hb] using hsame

/-- Spaces, groups and what is left behind the expression are not shown. -/
theorem parseExpression_of_render_eq_group :
    ∃ m n, parseExpression "NOT 3 < x*(2) 1" = .ok m ∧ parseExpression "NOT(3<(x*2))" = .ok n ∧
      m ≠ n ∧ m.render = n.render ∧ m.bare = n.bare ∧
      evaluateValue "NOT 3 < x*(2) 1" .empty = evaluateValue "NOT(3<(x*2))" .empty := by
  have ha : parseExpression "NOT 3 < x*(2) 1" =
      .ok (.unary ⟨.not, "", 0⟩ (.binary ⟨.operator (.comparison .lesser), "", 6⟩
        (.leaf ⟨.number, "3", 4⟩) (.binary ⟨.operator (.arithmetic .times), "", 9⟩
          (.leaf ⟨.identifier, "x", 8⟩) (.leaf ⟨.number, "2", 11⟩)))) := by decide +kernel
  have hb : parseExpression "NOT(3<(x*2))" =
      .ok (.unary ⟨.not, "", 0⟩ (.binary ⟨.operator (.comparison .lesser), "", 5⟩
        (.leaf ⟨.number, "3", 4⟩) (.binary ⟨.operator (.arithmetic .times), "", 8⟩
          (.leaf ⟨.identifier, "x", 7⟩) (.leaf ⟨.number, "2", 9⟩)))) := by decide +kernel
  obtain ⟨hbare, hvalue⟩ := parseExpression_of_render_eq ha hb rfl
  exact ⟨_, _, ha, hb, by decide, rfl, hbare, hvalue .empty⟩

end Condition
