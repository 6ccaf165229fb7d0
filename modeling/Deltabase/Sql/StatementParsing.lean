import Deltabase.Sql.Acceptance

/-!
# Statements that are read

The parser reads every input of its grammar: what `Accepts` says of the input is
what `parse` returns (`parses_of_accepts`). A rendering without parentheses
is in the grammar, without surplus tokens, so an `INSERT`, an `UPDATE` or a
`DELETE` that is spelt without parentheses is returned as it is
(`returns_of_renders`).
-/

namespace Sql

open SqlParser Stateful

section Forward

variable {β : Type} {s s₁ s' : SqlParser} {t : SqlToken} {ts w after : List SqlToken}

/-! ## Steps that do not throw -/

theorem advanceOrThrow_bind (h : s.rest = t :: after) (hafter : after ≠ []) (m : String)
    (f : Unit → Parse β) : (advanceOrThrow m >>= f) s = f () s.next := by
  obtain ⟨t', ts, rfl⟩ := List.exists_cons_of_ne_nil hafter
  have hadvance : advanceOrThrow m s = .ok () s.next := by
    rw [advanceOrThrow, advance_bind, h]
    rfl
  exact bind_ok hadvance

theorem matchOrThrow_bind {d : SqlTokenDetail} (h : s.rest = t :: ts) (hd : t.detail = d)
    (m : String) (f : Unit → Parse β) : (matchOrThrow d m >>= f) s = f () s := by
  have hmatch : matchOrThrow d m s = .ok () s := by
    rw [matchOrThrow, ifMatches_bind h, if_pos hd]
    rfl
  exact bind_ok hmatch

theorem matchTypeOrThrow_bind {d : SqlTokenType} (h : s.rest = t :: ts) (hd : t.type = d)
    (m : String) (f : Unit → Parse β) : (matchTypeOrThrow d m >>= f) s = f () s := by
  have hmatch : matchTypeOrThrow d m s = .ok () s := by
    rw [matchTypeOrThrow, ifMatchesType_bind h, if_pos hd]
    rfl
  exact bind_ok hmatch

theorem IsIdentifier.type (h : IsIdentifier t) : t.type = .identifier :=
  SqlToken.type_eq_identifier.mpr h

theorem IsLiteral.type (h : IsLiteral t) : t.type = .literal := SqlToken.type_eq_literal.mpr h

/-- **The cursor behind what has been read**: on what follows, or, at the end, on
an operand, which was the last token. -/
def Behind (s : SqlParser) (after : List SqlToken) : Prop :=
  (s.rest = after ∧ after ≠ []) ∨ (after = [] ∧ ∃ t e, s.rest = [t] ∧ Operand e t)

theorem behind_skip {e : ExprNode} {w' : List SqlToken} (h : s.rest = w ++ after)
    (hw : w = w' ++ [t]) (ht : Operand e t) : Behind (skip w s) after := by
  subst hw
  cases after with
  | nil =>
    rw [List.append_nil] at h
    exact Or.inr ⟨rfl, t, e, rest_skip_last h, ht⟩
  | cons x xs => exact Or.inl ⟨rest_skip h (List.cons_ne_nil _ _), List.cons_ne_nil _ _⟩

/-- No operand has the detail. -/
def NoOperand (d : SqlTokenDetail) : Prop := ∀ t e, Operand e t → t.detail ≠ d

theorem noOperand_symbol (x : SqlSymbol) : NoOperand (.symbol x) := by
  intro t e h
  cases h with
  | identifier hd => simp [hd]
  | literal hd => simp [hd]
  | null hd => simp [hd]

theorem noOperand_where : NoOperand (.keyword .where_) := by
  intro t e h
  cases h with
  | identifier hd => simp [hd]
  | literal hd => simp [hd]
  | null hd => simp [hd]

/-- Where something does not follow, the cursor is not on it. -/
theorem Behind.not_at {d : SqlTokenDetail} (h : Behind s after) (hafter : NotNext d after)
    (hd : NoOperand d) : ∃ t ts, s.rest = t :: ts ∧ t.detail ≠ d := by
  rcases h with ⟨hrest, hne⟩ | ⟨-, t, e, hrest, ht⟩
  · obtain ⟨t, ts, rfl⟩ := List.exists_cons_of_ne_nil hne
    exact ⟨t, ts, hrest, hafter t ts rfl⟩
  · exact ⟨t, [], hrest, hd t e ht⟩

theorem Behind.rest_eq (h : Behind s (t :: ts)) : s.rest = t :: ts := by
  rcases h with ⟨hrest, -⟩ | ⟨hnil, -⟩
  · exact hrest
  · cases hnil

theorem OpenRendering.behind {k p : ℕ} {e : ExprNode} (hw : OpenRendering k p e w)
    (h : s.rest = w ++ after) : Behind (skip w s) after := by
  obtain ⟨w', t, e', hlast, ht⟩ := hw.last
  exact behind_skip h hlast ht

/-! ## Tables and conditions -/

theorem TableTokens.ne_nil {table : TableIdentifier} (h : TableTokens table w) : w ≠ [] := by
  cases h <;> exact List.cons_ne_nil _ _

/-- A table ends with an identifier. -/
theorem TableTokens.last {table : TableIdentifier} (h : TableTokens table w) :
    ∃ w' t, w = w' ++ [t] ∧ IsIdentifier t := by
  cases h with
  | plain h => exact ⟨[], _, rfl, h⟩
  | qualified hs hd h => exact ⟨[_, _], _, rfl, h⟩

/-- **A table is read.** -/
theorem parseTableIdentifier_tokens {table : TableIdentifier} (h : TableTokens table w)
    (hrest : s.rest = w ++ after) (hend : TableEnds table after) :
    parseTableIdentifier s = .ok table (skip w s) := by
  unfold parseTableIdentifier
  cases h with
  | @plain t ht =>
    have hrest : s.rest = t :: after := hrest
    rw [matchTypeOrThrow_bind hrest ht.type, current_bind hrest, advance_bind]
    have hnext : ∃ x xs, s.next.rest = x :: xs ∧ x.detail ≠ .symbol .period := by
      cases after with
      | nil =>
        refine ⟨t, [], ?_, ?_⟩
        · rw [next_of_single hrest, hrest]
        · rw [ht]
          exact SqlTokenDetail.noConfusion
      | cons x xs =>
        exact ⟨x, xs, rest_next hrest (List.cons_ne_nil _ _), hend rfl x xs rfl⟩
    obtain ⟨x, xs, hx, hperiod⟩ := hnext
    rw [ifMatches_bind hx, if_neg hperiod]
    rfl
  | @qualified a d t ha hd ht =>
    have hrest : s.rest = a :: d :: t :: after := hrest
    have hnext : s.next.rest = d :: t :: after := rest_next hrest (List.cons_ne_nil _ _)
    have hnext' : s.next.next.rest = t :: after := rest_next hnext (List.cons_ne_nil _ _)
    rw [matchTypeOrThrow_bind hrest ha.type, current_bind hrest, advance_bind,
      ifMatches_bind hnext, if_pos hd, advanceOrThrow_bind hnext (List.cons_ne_nil _ _),
      matchTypeOrThrow_bind hnext' ht.type, current_bind hnext', advance_bind]
    rfl

theorem TableTokens.behind {table : TableIdentifier} (h : TableTokens table w)
    (hrest : s.rest = w ++ after) : Behind (skip w s) after := by
  obtain ⟨w', t, hlast, ht⟩ := h.last
  exact behind_skip hrest hlast (.identifier ht)

variable {k : ℕ} {e : ExprNode} {where_ : Option ExprNode}

/-- **A binary expression is read.** -/
theorem returns_parseBinaryExpr (hw : OpenRendering k 0 e w) (he : e.isBinaryExpr = true)
    (hrest : s.rest = w ++ after) (hf : Follows k 0 after) :
    Returns (fun fuel => parseBinaryExpr fuel 0) s e (skip w s) := by
  obtain ⟨n, h⟩ := parseBinaryTree_complete hw hrest hf
  refine ⟨n, fun fuel hfuel => ?_⟩
  show parseBinaryExpr fuel 0 s = _
  rw [parseBinaryExpr, bind_ok (h fuel hfuel), toBinaryExpr, if_pos he]
  rfl

/-- A method that goes on with the result of another. -/
theorem Returns.bind {α : Type} {x : ℕ → Parse α} {f : ℕ → α → Parse β} {a : α} {b : β}
    (hx : Returns x s a s₁) (hf : Returns (fun fuel => f fuel a) s₁ b s') :
    Returns (fun fuel => x fuel >>= f fuel) s b s' := by
  obtain ⟨n, hx⟩ := hx
  obtain ⟨n', hf⟩ := hf
  refine ⟨max n n', fun fuel hfuel => ?_⟩
  show (x fuel >>= f fuel) s = _
  rw [bind_ok (hx fuel (le_of_max_le_left hfuel))]
  exact hf fuel (le_of_max_le_right hfuel)

/-- A method that does not depend on the fuel. -/
theorem returns_of_eq {α : Type} {x : ℕ → Parse α} {a : α} (h : ∀ fuel, x fuel s = .ok a s') :
    Returns x s a s' := ⟨0, fun fuel _ => h fuel⟩

/-- A method that begins with steps that do not depend on the fuel. -/
theorem Returns.of_eq {α : Type} {x y : ℕ → Parse α} {a : α} (h : ∀ fuel, x fuel s = y fuel s₁)
    (hy : Returns y s₁ a s') : Returns x s a s' := by
  obtain ⟨n, hy⟩ := hy
  exact ⟨n, fun fuel hfuel => (h fuel).trans (hy fuel hfuel)⟩

/-- **A `WHERE` is read**, or that there is none. -/
theorem returns_parseWhere (hw : WhereReads where_ k w after) (hs : Behind s (w ++ after)) :
    Returns parseWhere s where_ (skip w s) := by
  cases hw with
  | none hnot =>
    obtain ⟨t, ts, hrest, ht⟩ := hs.not_at hnot noOperand_where
    refine returns_of_eq fun fuel => ?_
    rw [parseWhere, ifMatches_bind hrest, if_neg ht]
    rfl
  | @some e k t w _ ht hw he hf =>
    have hrest : s.rest = t :: (w ++ after) := hs.rest_eq
    have hne : w ++ after ≠ [] := List.append_ne_nil_of_left_ne_nil hw.ne_nil after
    have hexpr := returns_parseBinaryExpr hw he (rest_next hrest hne) hf
    refine Returns.of_eq (y := fun fuel => parseBinaryExpr fuel 0 >>= fun e => pure (some e))
      (fun fuel => ?_) (hexpr.bind (f := fun _ e => pure (some e)) (returns_of_eq fun _ => rfl))
    rw [parseWhere, ifMatches_bind hrest, if_pos ht, advance_bind]

/-! ## Lists of tokens -/

theorem stepBack_next (h : s.rest = t :: after) (hafter : after ≠ []) :
    stepBack s.next = .ok () s := by
  obtain ⟨t', ts, rfl⟩ := List.exists_cons_of_ne_nil hafter
  obtain ⟨passed, rest⟩ := s
  obtain rfl : rest = t :: t' :: ts := h
  rfl

theorem advanceToComma_bind {x : SqlToken} {xs : List SqlToken} (h : s.rest = t :: x :: xs)
    (f : Bool → Parse β) : (advanceToComma >>= f) s = f (x.detail == .symbol .comma) s.next := by
  have hnext : s.next.rest = x :: xs := rest_next h (List.cons_ne_nil _ _)
  have hcomma : advanceToComma s = .ok (x.detail == .symbol .comma) s.next := by
    rw [advanceToComma, advance_bind, h]
    show matches_ _ s.next = _
    unfold matches_ isAt
    rw [hnext]
    rfl
  exact bind_ok hcomma

section Tokens

variable {type : SqlTokenType} {other : Parse (List SqlToken)} {finish : Parse Unit} {fuel : ℕ}
  {a c x : SqlToken} {items : List SqlToken}

/-- A token of another type. -/
theorem parseTokens_other (h : s.rest = t :: x :: after) (hx : x.type ≠ type) :
    parseTokens type other finish (fuel + 1) s = other s.next := by
  have hnext : s.next.rest = x :: after := rest_next h (List.cons_ne_nil _ _)
  rw [parseTokens, advanceOrThrow_bind h (List.cons_ne_nil _ _), ifMatchesType_bind hnext,
    if_neg hx]

/-- The last token of a list. -/
theorem parseTokens_last (h : s.rest = t :: a :: x :: after) (ha : a.type = type)
    (hx : x.detail ≠ .symbol .comma) (hfinish : finish (skip [t, a] s) = .ok () s') :
    parseTokens type other finish (fuel + 1) s = .ok [a] s' := by
  have hnext : s.next.rest = a :: x :: after := rest_next h (List.cons_ne_nil _ _)
  rw [parseTokens, advanceOrThrow_bind h (List.cons_ne_nil _ _), ifMatchesType_bind hnext,
    if_pos ha, current_bind hnext, advanceToComma_bind hnext, if_neg (mt beq_iff_eq.mp hx)]
  exact bind_ok hfinish

/-- A token with a comma behind it. -/
theorem parseTokens_cons (h : s.rest = t :: a :: c :: after) (ha : a.type = type)
    (hc : c.detail = .symbol .comma)
    (hrest : parseTokens type other finish fuel (skip [t, a] s) = .ok items s') :
    parseTokens type other finish (fuel + 1) s = .ok (a :: items) s' := by
  have hnext : s.next.rest = a :: c :: after := rest_next h (List.cons_ne_nil _ _)
  rw [parseTokens, advanceOrThrow_bind h (List.cons_ne_nil _ _), ifMatchesType_bind hnext,
    if_pos ha, current_bind hnext, advanceToComma_bind hnext, if_pos (beq_iff_eq.mpr hc)]
  exact bind_ok hrest

variable {P : SqlToken → Prop} {cs : List SqlToken}

/-- **A list that ends in front of a token that is no comma.** -/
theorem parseTokens_commas (hP : ∀ t, P t → t.type = type) (hx : x.detail ≠ .symbol .comma)
    (hcs : Commas (Itself P) items cs) : ∀ {s t fuel}, s.rest = t :: (cs ++ x :: after) →
      finish (skip (t :: cs) s) = .ok () s' → items.length ≤ fuel →
      parseTokens type other finish fuel s = .ok items s' := by
  induction hcs with
  | single h =>
    intro s t fuel hrest hfinish hfuel
    obtain ⟨ha⟩ := h
    obtain ⟨fuel, rfl⟩ := Nat.exists_eq_succ_of_ne_zero (Nat.ne_zero_of_lt hfuel)
    exact parseTokens_last hrest (hP _ ha) hx hfinish
  | cons h hc hs ih =>
    intro s t fuel hrest hfinish hfuel
    obtain ⟨ha⟩ := h
    obtain ⟨fuel, rfl⟩ := Nat.exists_eq_succ_of_ne_zero (Nat.ne_zero_of_lt hfuel)
    have hat : (skip [t, _] s).rest = _ := rest_skip (w := [t, _]) hrest (List.cons_ne_nil _ _)
    refine parseTokens_cons hrest (hP _ ha) hc (ih hat ?_ ?_)
    · exact hfinish
    · exact Nat.le_of_succ_le_succ hfuel

/-- **A list that a token of another type follows behind a comma.** -/
theorem parseTokens_comma (hP : ∀ t, P t → t.type = type) (hc : c.detail = .symbol .comma)
    (hx : x.type ≠ type) (hcs : Commas (Itself P) items cs) : ∀ {s t fuel},
      s.rest = t :: (cs ++ c :: x :: after) →
      other (skip (t :: (cs ++ [c])) s) = .ok [] s' → items.length + 1 ≤ fuel →
      parseTokens type other finish fuel s = .ok items s' := by
  induction hcs with
  | single h =>
    intro s t fuel hrest hother hfuel
    obtain ⟨ha⟩ := h
    obtain ⟨fuel, rfl⟩ := Nat.exists_eq_add_of_le' hfuel
    have hat : (skip [t, _] s).rest = _ := rest_skip (w := [t, _]) hrest (List.cons_ne_nil _ _)
    exact parseTokens_cons hrest (hP _ ha) hc ((parseTokens_other hat hx).trans hother)
  | cons h hc' hs ih =>
    intro s t fuel hrest hother hfuel
    obtain ⟨ha⟩ := h
    obtain ⟨fuel, rfl⟩ := Nat.exists_eq_succ_of_ne_zero (Nat.ne_zero_of_lt hfuel)
    have hat : (skip [t, _] s).rest = _ := rest_skip (w := [t, _]) hrest (List.cons_ne_nil _ _)
    refine parseTokens_cons hrest (hP _ ha) hc' (ih hat ?_ ?_)
    · exact hother
    · exact Nat.le_of_succ_le_succ hfuel

end Tokens

/-- The loop stands on the token with which the list ends. -/
theorem returns_parseSelectColumns {columns surplus cw : List SqlToken}
    (hc : SelectList columns surplus cw) (hrest : s.rest = t :: (cw ++ after)) :
    ∃ u x, cw = u ++ [x] ∧ Returns parseSelectColumns s columns (skip (t :: u) s) := by
  have hid : ∀ t, IsIdentifier t → t.type = .identifier := fun _ h => h.type
  have hother : ∀ x, ¬ IsIdentifier x → x.type ≠ .identifier := fun _ h =>
    mt SqlToken.type_eq_identifier.mp h
  cases hc with
  | @all x hx =>
    have hne : ¬ IsIdentifier x := fun h => by
      rw [IsIdentifier, hx] at h
      cases h
    exact ⟨[], x, rfl, returns_of_succ ⟨0, fun fuel _ => parseTokens_other hrest (hother x hne)⟩⟩
  | @other x hx hne =>
    exact ⟨[], x, rfl, returns_of_succ ⟨0, fun fuel _ => parseTokens_other hrest (hother x hne)⟩⟩
  | @columns _ cs x h hx =>
    rw [List.append_assoc] at hrest
    exact ⟨cs, x, rfl, columns.length, fun fuel hfuel =>
      parseTokens_commas hid hx h hrest rfl hfuel⟩
  | @comma _ cs c x h hc hx =>
    rw [List.append_assoc] at hrest
    refine ⟨cs ++ [c], x, ?_, columns.length + 1, fun fuel hfuel => ?_⟩
    · rw [List.append_assoc, List.singleton_append]
    · exact parseTokens_comma hid hc (hother x hx) h hrest rfl hfuel

theorem Commas.concat {P : SqlToken → Prop} {items cs : List SqlToken}
    (h : Commas (Itself P) items cs) : ∃ u x, cs = u ++ [x] ∧ P x := by
  induction h with
  | single h =>
    obtain ⟨ha⟩ := h
    exact ⟨[], _, rfl, ha⟩
  | @cons a as w ws c h _ _ ih =>
    obtain ⟨u, x, rfl, hx⟩ := ih
    refine ⟨w ++ c :: u, x, ?_, hx⟩
    rw [List.append_assoc, List.cons_append]

/-- A list in front of a token that is no comma, from which the loop steps back. -/
theorem returns_parseTokens_back {type : SqlTokenType} (other : Parse (List SqlToken))
    {P : SqlToken → Prop} {items cs : List SqlToken} {x : SqlToken}
    (hP : ∀ t, P t → t.type = type) (hx : x.detail ≠ .symbol .comma)
    (hcs : Commas (Itself P) items cs) (hrest : s.rest = t :: (cs ++ x :: after)) :
    ∃ u y, cs = u ++ [y] ∧ Returns (parseTokens type other stepBack) s items (skip (t :: u) s) := by
  obtain ⟨u, y, rfl, -⟩ := hcs.concat
  refine ⟨u, y, rfl, items.length, fun fuel hfuel =>
    parseTokens_commas hP hx hcs hrest ?_ hfuel⟩
  have hat : (skip (t :: u) s).rest = y :: x :: after := by
    rw [List.append_assoc] at hrest
    exact rest_skip (w := t :: u) hrest (List.cons_ne_nil _ _)
  have hskip : skip (t :: (u ++ [y])) s = (skip (t :: u) s).next := skip_append (t :: u) [y]
  rw [hskip]
  exact stepBack_next hat (List.cons_ne_nil _ _)

theorem returns_parseInsertColumns {columns surplus cw : List SqlToken} {rp : SqlToken}
    (hc : InsertList columns surplus cw) (hrp : rp.detail = .symbol .rparen)
    (hrest : s.rest = t :: (cw ++ rp :: after)) :
    ∃ u x, cw = u ++ [x] ∧ Returns parseInsertColumns s columns (skip (t :: u) s) := by
  have hid : ∀ t, IsIdentifier t → t.type = .identifier := fun _ h => h.type
  have hother : ∀ x, ¬ IsIdentifier x → x.type ≠ .identifier := fun _ h =>
    mt SqlToken.type_eq_identifier.mp h
  have hne : rp.detail ≠ .symbol .comma := by
    rw [hrp]
    decide
  cases hc with
  | @all x hx =>
    have hne : ¬ IsIdentifier x := fun h => by
      rw [IsIdentifier, hx] at h
      cases h
    exact ⟨[], x, rfl, returns_of_succ ⟨0, fun fuel _ => parseTokens_other hrest (hother x hne)⟩⟩
  | @other x hx hne =>
    exact ⟨[], x, rfl, returns_of_succ ⟨0, fun fuel _ => parseTokens_other hrest (hother x hne)⟩⟩
  | columns h => exact returns_parseTokens_back _ hid hne h hrest
  | @comma _ cs c x h hc hx =>
    rw [List.append_assoc] at hrest
    refine ⟨cs ++ [c], x, ?_, columns.length + 1, fun fuel hfuel => ?_⟩
    · rw [List.append_assoc, List.singleton_append]
    · exact parseTokens_comma hid hc (hother x hx) h hrest rfl hfuel

theorem IsAssignment.isBinaryExpr (h : IsAssignment e) : e.isBinaryExpr = true := by
  obtain ⟨l, r, rfl⟩ := h
  rfl

/-- What the loop over the assignments does behind an expression. -/
def parseMoreAssignments (expr : ExprNode) (fuel : ℕ) : Parse (List ExprNode) := do
  match expr with
  | .binaryExpr .assign _ _ =>
    if ← matches_ (.symbol .comma) then do
      let assignments ← parseAssignments fuel
      pure (expr :: assignments)
    else pure [expr]
  | _ => throw (.threw (.runtimeError "Expected assignment expression (col = value)"))

/-- The loop begins with an expression. -/
theorem returns_parseAssignments {es : List ExprNode} (h : s.rest = t :: after) (hne : after ≠ [])
    (hexpr : Returns (fun fuel => parseBinaryExpr fuel 0) s.next e s₁)
    (hmore : Returns (parseMoreAssignments e) s₁ es s') : Returns parseAssignments s es s' := by
  obtain ⟨n, hexpr⟩ := hexpr
  obtain ⟨m, hmore⟩ := hmore
  refine returns_of_succ ⟨max n m, fun fuel hfuel => ?_⟩
  rw [parseAssignments, advanceOrThrow_bind h hne,
    bind_ok (hexpr fuel (le_of_max_le_left hfuel))]
  exact hmore fuel (le_of_max_le_right hfuel)

theorem AssignmentsRead.last {es : List ExprNode} (ha : AssignmentsRead es k w after) :
    ∃ w' t e', w = w' ++ [t] ∧ Operand e' t := by
  induction ha with
  | single hw _ _ _ => exact hw.last
  | @cons e es k c w ws after _ _ _ _ ih =>
    obtain ⟨w', t, e', rfl, ht⟩ := ih
    refine ⟨w ++ c :: w', t, e', ?_, ht⟩
    rw [List.append_assoc, List.cons_append]

/-- **The assignments are read.** -/
theorem AssignmentsRead.returns {es : List ExprNode} (ha : AssignmentsRead es k w after) :
    ∀ {s t}, s.rest = t :: (w ++ after) →
      Returns parseAssignments s es (skip (t :: w) s) := by
  induction ha with
  | @single e k w after hw he hf hcomma =>
    intro s t hrest
    have hne : w ++ after ≠ [] := List.append_ne_nil_of_left_ne_nil hw.ne_nil after
    have hnext : s.next.rest = w ++ after := rest_next hrest hne
    refine returns_parseAssignments hrest hne
      (returns_parseBinaryExpr hw he.isBinaryExpr hnext hf) (returns_of_eq fun fuel => ?_)
    obtain ⟨x, xs, hx, hdetail⟩ := (hw.behind hnext).not_at hcomma (noOperand_symbol _)
    obtain ⟨l, r, rfl⟩ := he
    show (matches_ (.symbol .comma) >>= _) (skip w s.next) = _
    rw [ifMatches_bind hx, if_neg hdetail]
    rfl
  | @cons e es k c w ws after hw he hc hs ih =>
    intro s t hrest
    rw [List.append_assoc, List.cons_append] at hrest
    have hne : w ++ c :: (ws ++ after) ≠ [] := List.append_ne_nil_of_left_ne_nil hw.ne_nil _
    have hnext : s.next.rest = w ++ c :: (ws ++ after) := rest_next hrest hne
    have hat : (skip w s.next).rest = c :: (ws ++ after) :=
      rest_skip hnext (List.cons_ne_nil _ _)
    have hstops : Stops 0 (c :: (ws ++ after)) := by
      intro x xs op hx hop
      obtain ⟨rfl, -⟩ := List.cons.inj hx
      rw [operatorOf, hc] at hop
      cases hop
    refine returns_parseAssignments hrest hne
      (returns_parseBinaryExpr hw he.isBinaryExpr hnext hstops) ?_
    obtain ⟨n, hmore⟩ := ih hat
    obtain ⟨l, r, rfl⟩ := he
    refine ⟨n, fun fuel hfuel => ?_⟩
    show (matches_ (.symbol .comma) >>= _) (skip w s.next) = _
    rw [ifMatches_bind hat, if_pos hc, bind_ok (hmore fuel hfuel)]
    show EStateM.Result.ok _ (skip (c :: ws) (skip w s.next)) = _
    rw [← skip_append]
    rfl

/-! ## Statements -/

section Statements

variable {table : TableIdentifier} {columns values surplus : List SqlToken}

/-- What `parse_select` does behind the table. -/
def parseSelectWhere (table : TableIdentifier) (columns : List SqlToken) (fuel : ℕ) :
    Parse SelectStatement := do
  if ← matches_ (.keyword .where_) then do
    advanceOrThrow
    let expr ← parseBinaryExpr fuel 0
    pure { table, columns, where_ := some expr }
  else pure { table, columns, where_ := none }

theorem returns_parseSelectWhere (table : TableIdentifier) (columns : List SqlToken)
    (hw : WhereReads where_ k w after) (hs : Behind s (w ++ after)) :
    Returns (parseSelectWhere table columns) s { table, columns, where_ } (skip w s) := by
  cases hw with
  | none hnot =>
    obtain ⟨t, ts, hrest, ht⟩ := hs.not_at hnot noOperand_where
    refine returns_of_eq fun fuel => ?_
    rw [parseSelectWhere, ifMatches_bind hrest, if_neg ht]
    rfl
  | @some e k t w _ ht hw he hf =>
    have hrest : s.rest = t :: (w ++ after) := hs.rest_eq
    have hne : w ++ after ≠ [] := List.append_ne_nil_of_left_ne_nil hw.ne_nil after
    obtain ⟨n, hexpr⟩ := returns_parseBinaryExpr hw he (rest_next hrest hne) hf
    refine ⟨n, fun fuel hfuel => ?_⟩
    rw [parseSelectWhere, ifMatches_bind hrest, if_pos ht, advanceOrThrow_bind hrest hne,
      bind_ok (hexpr fuel hfuel)]
    rfl

/-- **A `SELECT` is read up to its table.** -/
theorem parseSelect_tokens {f : SqlToken} {cw tw : List SqlToken}
    (hs : t.detail = .keyword .select) (hc : SelectList columns surplus cw)
    (hf : f.detail = .keyword .from_) (ht : TableTokens table tw) (hend : TableEnds table after)
    (hrest : s.rest = t :: (cw ++ f :: (tw ++ after))) :
    Behind (skip (t :: (cw ++ f :: tw)) s) after
      ∧ ∃ n, ∀ fuel ≥ n, parseSelect fuel s
        = parseSelectWhere table columns fuel (skip (t :: (cw ++ f :: tw)) s) := by
  obtain ⟨u, x, rfl, n, hcolumns⟩ := returns_parseSelectColumns hc hrest
  have hne : tw ++ after ≠ [] := List.append_ne_nil_of_left_ne_nil ht.ne_nil _
  have hx : (skip (t :: u) s).rest = x :: f :: (tw ++ after) := by
    rw [List.append_assoc] at hrest
    exact rest_skip (w := t :: u) hrest (List.cons_ne_nil _ _)
  have hfrom : (skip (t :: u) s).next.rest = f :: (tw ++ after) :=
    rest_next hx (List.cons_ne_nil _ _)
  have htable : (skip (t :: u) s).next.next.rest = tw ++ after := rest_next hfrom hne
  have hmul : t.detail ≠ .operator .mul := by
    rw [hs]
    exact SqlTokenDetail.noConfusion
  have hskip : skip (t :: (u ++ [x] ++ f :: tw)) s = skip tw (skip (t :: u) s).next.next := by
    simp only [skip_append, skip_cons, skip_nil]
  rw [hskip]
  refine ⟨ht.behind htable, n, fun fuel hfuel => ?_⟩
  have hlist : (matches_ (.operator .mul) >>= fun b =>
      if b = true then advance >>= fun _ => pure [] else parseSelectColumns fuel) s
        = .ok columns (skip (t :: u) s) := by
    rw [ifMatches_bind hrest, if_neg hmul]
    exact hcolumns fuel hfuel
  unfold parseSelect
  rw [bind_ok hlist, advanceOrThrow_bind hx (List.cons_ne_nil _ _), matchOrThrow_bind hfrom hf,
    advanceOrThrow_bind hfrom hne, bind_ok (parseTableIdentifier_tokens ht htable hend)]
  rfl

theorem returns_parseSelect {f : SqlToken} {cw tw ww : List SqlToken}
    (hs : t.detail = .keyword .select) (hc : SelectList columns surplus cw)
    (hf : f.detail = .keyword .from_) (ht : TableTokens table tw)
    (hend : TableEnds table (ww ++ after)) (hw : WhereReads where_ k ww after)
    (hrest : s.rest = t :: (cw ++ f :: (tw ++ (ww ++ after)))) :
    Returns parseSelect s { table, columns, where_ } (skip (t :: (cw ++ f :: (tw ++ ww))) s) := by
  obtain ⟨hbehind, n, hselect⟩ := parseSelect_tokens hs hc hf ht hend hrest
  obtain ⟨m, hwhere⟩ := returns_parseSelectWhere table columns hw hbehind
  refine ⟨max n m, fun fuel hfuel => ?_⟩
  rw [hselect fuel (le_of_max_le_left hfuel), hwhere fuel (le_of_max_le_right hfuel), ← skip_append]
  simp

/-- **An `UPDATE` is read up to its assignments.** -/
theorem parseUpdate_tokens {u : SqlToken} {tw : List SqlToken} (ht : TableTokens table tw)
    (hset : u.detail = .keyword .set) (hrest : s.rest = t :: (tw ++ u :: after)) (fuel : ℕ) :
    (skip (t :: tw) s).rest = u :: after
      ∧ parseUpdate fuel s = (parseAssignments fuel >>= fun assignments =>
          parseWhere fuel >>= fun where_ => pure { table, assignments, where_ })
            (skip (t :: tw) s) := by
  have hne : tw ++ u :: after ≠ [] := List.append_ne_nil_of_left_ne_nil ht.ne_nil _
  have htable : s.next.rest = tw ++ u :: after := rest_next hrest hne
  have hat : (skip tw s.next).rest = u :: after := rest_skip htable (List.cons_ne_nil _ _)
  have hend : TableEnds table (u :: after) := by
    intro _ x xs hx
    obtain ⟨rfl, -⟩ := List.cons.inj hx
    rw [hset]
    exact SqlTokenDetail.noConfusion
  refine ⟨hat, ?_⟩
  rw [parseUpdate, advanceOrThrow_bind hrest hne,
    bind_ok (parseTableIdentifier_tokens ht htable hend), matchOrThrow_bind hat hset]
  rfl

theorem AssignmentsRead.behind {es : List ExprNode} (ha : AssignmentsRead es k w after)
    (hrest : s.rest = t :: (w ++ after)) : Behind (skip (t :: w) s) after := by
  obtain ⟨w', x, e', rfl, hx⟩ := ha.last
  have hlast : t :: (w' ++ [x]) = (t :: w') ++ [x] := rfl
  exact behind_skip hrest hlast hx

theorem returns_parseUpdate {es : List ExprNode} {k' : ℕ} {u : SqlToken} {tw aw ww : List SqlToken}
    (ht : TableTokens table tw) (hset : u.detail = .keyword .set)
    (ha : AssignmentsRead es k aw (ww ++ after)) (hw : WhereReads where_ k' ww after)
    (hrest : s.rest = t :: (tw ++ u :: (aw ++ (ww ++ after)))) :
    Returns parseUpdate s { table, assignments := es, where_ }
      (skip (t :: (tw ++ u :: (aw ++ ww))) s) := by
  obtain ⟨hat, -⟩ := parseUpdate_tokens ht hset hrest 0
  obtain ⟨n, hassignments⟩ := ha.returns hat
  obtain ⟨m, hwhere⟩ := returns_parseWhere hw (ha.behind hat)
  refine ⟨max n m, fun fuel hfuel => ?_⟩
  rw [(parseUpdate_tokens ht hset hrest fuel).2,
    bind_ok (hassignments fuel (le_of_max_le_left hfuel)),
    bind_ok (hwhere fuel (le_of_max_le_right hfuel)), ← skip_append, ← skip_append]
  simp
  rfl

/-- **A `DELETE` is read up to its table.** -/
theorem parseDelete_tokens {f : SqlToken} {tw : List SqlToken} (hf : f.detail = .keyword .from_)
    (ht : TableTokens table tw) (hend : TableEnds table after)
    (hrest : s.rest = t :: f :: (tw ++ after)) (fuel : ℕ) :
    Behind (skip (t :: f :: tw) s) after
      ∧ parseDelete fuel s
        = (parseWhere fuel >>= fun where_ => pure { table, where_ }) (skip (t :: f :: tw) s) := by
  have hne : tw ++ after ≠ [] := List.append_ne_nil_of_left_ne_nil ht.ne_nil _
  have hfrom : s.next.rest = f :: (tw ++ after) := rest_next hrest (List.cons_ne_nil _ _)
  have htable : s.next.next.rest = tw ++ after := rest_next hfrom hne
  refine ⟨ht.behind htable, ?_⟩
  rw [parseDelete, advanceOrThrow_bind hrest (List.cons_ne_nil _ _), matchOrThrow_bind hfrom hf,
    advanceOrThrow_bind hfrom hne, bind_ok (parseTableIdentifier_tokens ht htable hend)]
  rfl

theorem returns_parseDelete {f : SqlToken} {tw ww : List SqlToken}
    (hf : f.detail = .keyword .from_) (ht : TableTokens table tw)
    (hend : TableEnds table (ww ++ after)) (hw : WhereReads where_ k ww after)
    (hrest : s.rest = t :: f :: (tw ++ (ww ++ after))) :
    Returns parseDelete s { table, where_ } (skip (t :: f :: (tw ++ ww)) s) := by
  obtain ⟨hbehind, -⟩ := parseDelete_tokens hf ht hend hrest 0
  obtain ⟨n, hwhere⟩ := returns_parseWhere hw hbehind
  refine ⟨n, fun fuel hfuel => ?_⟩
  rw [(parseDelete_tokens hf ht hend hrest fuel).2, bind_ok (hwhere fuel hfuel), ← skip_append]
  rfl

theorem returns_parseInsert {n lp rp v lp' : SqlToken} {tw cw vw : List SqlToken}
    (hn : n.detail = .keyword .into) (ht : TableTokens table tw)
    (hlp : lp.detail = .symbol .lparen) (hc : InsertList columns surplus cw)
    (hrp : rp.detail = .symbol .rparen) (hv : v.detail = .keyword .values)
    (hlp' : lp'.detail = .symbol .lparen) (hw : Commas (Itself IsLiteral) values vw)
    (hclose : Closes after)
    (hrest : s.rest = t :: n :: (tw ++ lp :: (cw ++ rp :: v :: lp' :: (vw ++ after)))) :
    Returns parseInsert s { table, columns, values := [values] }
      (skip (t :: n :: (tw ++ lp :: (cw ++ rp :: v :: lp' :: vw))) s) := by
  have hinto : s.next.rest = n :: (tw ++ lp :: (cw ++ rp :: v :: lp' :: (vw ++ after))) :=
    rest_next hrest (List.cons_ne_nil _ _)
  have hne : tw ++ lp :: (cw ++ rp :: v :: lp' :: (vw ++ after)) ≠ [] :=
    List.append_ne_nil_of_left_ne_nil ht.ne_nil _
  have htable : s.next.next.rest = tw ++ lp :: (cw ++ rp :: v :: lp' :: (vw ++ after)) :=
    rest_next hinto hne
  have hend : TableEnds table (lp :: (cw ++ rp :: v :: lp' :: (vw ++ after))) := by
    intro _ x xs hx
    obtain ⟨rfl, -⟩ := List.cons.inj hx
    rw [hlp]
    exact fun h => nomatch SqlTokenDetail.symbol.inj h
  -- the loop over the columns ends on the token in front of the parenthesis
  have hcat : (skip tw s.next.next).rest = lp :: (cw ++ rp :: v :: lp' :: (vw ++ after)) :=
    rest_skip htable (List.cons_ne_nil _ _)
  have hmul : lp.detail ≠ .operator .mul := by
    rw [hlp]
    exact SqlTokenDetail.noConfusion
  obtain ⟨u, x, rfl, k, hcolumns⟩ := returns_parseInsertColumns hc hrp hcat
  set s₁ := skip (lp :: u) (skip tw s.next.next) with hs₁
  have hx : s₁.rest = x :: rp :: v :: lp' :: (vw ++ after) := by
    rw [List.append_assoc] at hcat
    exact rest_skip (w := lp :: u) hcat (List.cons_ne_nil _ _)
  have hrparen : s₁.next.rest = rp :: v :: lp' :: (vw ++ after) :=
    rest_next hx (List.cons_ne_nil _ _)
  have hvalues : s₁.next.next.rest = v :: lp' :: (vw ++ after) :=
    rest_next hrparen (List.cons_ne_nil _ _)
  have hlparen : s₁.next.next.next.rest = lp' :: (vw ++ after) :=
    rest_next hvalues (List.cons_ne_nil _ _)
  -- and that over the values on the last of them
  obtain ⟨rp', ts, rfl, hrp'⟩ := hclose
  have hne' : rp'.detail ≠ .symbol .comma := by
    rw [hrp']
    exact fun h => nomatch SqlTokenDetail.symbol.inj h
  obtain ⟨u', y, rfl, m, hlist⟩ := returns_parseTokens_back
    (throw (.threw (.invalidStatementSyntax "Expected a literal in VALUES expression")))
    (fun _ h => h.type) hne' hw hlparen
  set s₂ := skip (lp' :: u') s₁.next.next.next with hs₂
  have hy : s₂.rest = y :: rp' :: ts := by
    rw [List.append_assoc] at hlparen
    exact rest_skip (w := lp' :: u') hlparen (List.cons_ne_nil _ _)
  have hlast : s₂.next.rest = rp' :: ts := rest_next hy (List.cons_ne_nil _ _)
  refine ⟨max k m, fun fuel hfuel => ?_⟩
  have hcols : (matches_ (.operator .mul) >>= fun b =>
      if b = true then advanceOrThrow >>= fun _ => pure [] else parseInsertColumns fuel)
        (skip tw s.next.next) = .ok columns s₁ := by
    rw [ifMatches_bind hcat, if_neg hmul]
    exact hcolumns fuel (le_of_max_le_left hfuel)
  have hvals : parseInsertValues fuel s₁.next.next.next = .ok values s₂ :=
    hlist fuel (le_of_max_le_right hfuel)
  unfold parseInsert
  rw [advanceOrThrow_bind hrest (List.cons_ne_nil _ _), matchOrThrow_bind hinto hn,
    advanceOrThrow_bind hinto hne, bind_ok (parseTableIdentifier_tokens ht htable hend),
    matchOrThrow_bind hcat hlp, bind_ok hcols, advanceOrThrow_bind hx (List.cons_ne_nil _ _),
    matchOrThrow_bind hrparen hrp, advanceOrThrow_bind hrparen (List.cons_ne_nil _ _),
    matchOrThrow_bind hvalues hv, advanceOrThrow_bind hvalues (List.cons_ne_nil _ _),
    matchOrThrow_bind hlparen hlp', bind_ok hvals,
    advanceOrThrow_bind hy (List.cons_ne_nil _ _), matchOrThrow_bind hlast hrp']
  simp only [hs₁, hs₂, skip_append, skip_cons, skip_nil]
  rfl

theorem noPeriod_lparen {lp : SqlToken} {ts : List SqlToken} (hlp : lp.detail = .symbol .lparen) :
    TableEnds table (lp :: ts) := by
  intro _ x xs hx
  obtain ⟨rfl, -⟩ := List.cons.inj hx
  rw [hlp]
  exact fun h => nomatch SqlTokenDetail.symbol.inj h

theorem parseIndexDefinition_tokens {name column i o lp : SqlToken} {tw : List SqlToken}
    {isUnique : Option Bool} (hi : i.detail = .keyword .index) (hname : IsIdentifier name)
    (ho : o.detail = .keyword .on_) (ht : TableTokens table tw)
    (hlp : lp.detail = .symbol .lparen) (hcolumn : IsIdentifier column) (hclose : Closes after)
    (hrest : s.rest = i :: name :: o :: (tw ++ lp :: column :: after)) :
    parseIndexDefinition isUnique s
      = .ok { table, indexName := name, columnName := column, isUnique }
          (skip (i :: name :: o :: (tw ++ [lp, column])) s) := by
  obtain ⟨rp, ts, rfl, hrp⟩ := hclose
  have hname' : s.next.rest = name :: o :: (tw ++ lp :: column :: rp :: ts) :=
    rest_next hrest (List.cons_ne_nil _ _)
  have hon : s.next.next.rest = o :: (tw ++ lp :: column :: rp :: ts) :=
    rest_next hname' (List.cons_ne_nil _ _)
  have hne : tw ++ lp :: column :: rp :: ts ≠ [] := List.append_ne_nil_of_left_ne_nil ht.ne_nil _
  have htable : s.next.next.next.rest = tw ++ lp :: column :: rp :: ts := rest_next hon hne
  have hat : (skip tw s.next.next.next).rest = lp :: column :: rp :: ts :=
    rest_skip htable (List.cons_ne_nil _ _)
  have hcolumn' : (skip tw s.next.next.next).next.rest = column :: rp :: ts :=
    rest_next hat (List.cons_ne_nil _ _)
  have hlast : (skip tw s.next.next.next).next.next.rest = rp :: ts :=
    rest_next hcolumn' (List.cons_ne_nil _ _)
  unfold parseIndexDefinition
  rw [matchOrThrow_bind hrest hi, advanceOrThrow_bind hrest (List.cons_ne_nil _ _),
    matchTypeOrThrow_bind hname' hname.type, current_bind hname',
    advanceOrThrow_bind hname' (List.cons_ne_nil _ _), matchOrThrow_bind hon ho,
    advanceOrThrow_bind hon hne,
    bind_ok (parseTableIdentifier_tokens ht htable (noPeriod_lparen hlp)),
    matchOrThrow_bind hat hlp, advanceOrThrow_bind hat (List.cons_ne_nil _ _),
    matchTypeOrThrow_bind hcolumn' hcolumn.type, current_bind hcolumn',
    advanceOrThrow_bind hcolumn' (List.cons_ne_nil _ _), matchOrThrow_bind hlast hrp]
  simp only [skip_append, skip_cons, skip_nil]
  rfl

theorem parseDropIndex_tokens {name i o : SqlToken} {tw : List SqlToken}
    (hi : i.detail = .keyword .index) (hname : IsIdentifier name)
    (ho : o.detail = .keyword .on_) (ht : TableTokens table tw) (hend : TableEnds table after)
    (hrest : s.rest = i :: name :: o :: (tw ++ after)) :
    parseDropIndex s
      = .ok { table, indexName := name } (skip (i :: name :: o :: tw) s) := by
  have hne : tw ++ after ≠ [] := List.append_ne_nil_of_left_ne_nil ht.ne_nil _
  have hname' : s.next.rest = name :: o :: (tw ++ after) := rest_next hrest (List.cons_ne_nil _ _)
  have hon : s.next.next.rest = o :: (tw ++ after) := rest_next hname' (List.cons_ne_nil _ _)
  have htable : s.next.next.next.rest = tw ++ after := rest_next hon hne
  unfold parseDropIndex
  rw [matchOrThrow_bind hrest hi, advanceOrThrow_bind hrest (List.cons_ne_nil _ _),
    matchTypeOrThrow_bind hname' hname.type, current_bind hname',
    advanceOrThrow_bind hname' (List.cons_ne_nil _ _), matchOrThrow_bind hon ho,
    advanceOrThrow_bind hon hne, bind_ok (parseTableIdentifier_tokens ht htable hend)]
  rfl

/-- A method whose result is wrapped. -/
theorem Returns.map {α : Type} {x : ℕ → Parse α} {a : α} (g : α → β) (h : Returns x s a s') :
    Returns (fun fuel => g <$> x fuel) s (g a) s' := by
  obtain ⟨n, h⟩ := h
  refine ⟨n, fun fuel hfuel => ?_⟩
  show (g <$> x fuel) s = _
  rw [map_eq_pure_bind, bind_ok (h fuel hfuel)]
  rfl

/-- `parse` tells the statements apart by their first keyword. -/
theorem parseStatement_eq (h : s.rest = t :: ts) (fuel : ℕ) :
    parseStatement fuel s
      = if t.detail = .keyword .select then (.select <$> parseSelect fuel : Parse Statement) s
        else if t.detail = .keyword .insert then
          (.insert <$> parseInsert fuel : Parse Statement) s
        else if t.detail = .keyword .update then
          (.update <$> parseUpdate fuel : Parse Statement) s
        else if t.detail = .keyword .delete then
          (.delete <$> parseDelete fuel : Parse Statement) s
        else if t.detail = .keyword .create then parseCreate fuel s
        else if t.detail = .keyword .drop then parseDrop s
        else if t.detail = .keyword .alter then parseAlter fuel s
        else .error unsupportedStatement s := by
  unfold parseStatement
  rw [ifMatches_bind h, ifMatches_bind h, ifMatches_bind h, ifMatches_bind h, ifMatches_bind h,
    ifMatches_bind h, ifMatches_bind h]
  rfl

theorem advanceOrInvalid_bind (h : s.rest = t :: after) (hafter : after ≠ [])
    (f : Unit → Parse β) : (advanceOrInvalid >>= f) s = f () s.next := by
  obtain ⟨t', ts, rfl⟩ := List.exists_cons_of_ne_nil hafter
  have hadvance : advanceOrInvalid s = .ok () s.next := by
    rw [advanceOrInvalid, advance_bind, h]
    rfl
  exact bind_ok hadvance

/-- `CREATE` goes on with the keyword behind it. -/
theorem parseCreate_eq {x : SqlToken} (h : s.rest = t :: x :: ts) (fuel : ℕ) :
    parseCreate fuel s
      = if x.detail = .keyword .table then
          (.createTable <$> parseCreateTable fuel : Parse Statement) s.next
        else if x.detail = .keyword .database then
          (.createDatabase <$> parseCreateDb : Parse Statement) s.next
        else if x.detail = .keyword .schema then
          (.createSchema <$> parseCreateSchema : Parse Statement) s.next
        else if x.detail = .keyword .index ∨ x.detail = .keyword .unique then
          (.createIndex <$> parseCreateIndex : Parse Statement) s.next
        else .error unsupportedStatement s.next := by
  have hnext : s.next.rest = x :: ts := rest_next h (List.cons_ne_nil _ _)
  unfold parseCreate
  rw [advanceOrInvalid_bind h (List.cons_ne_nil _ _), ifMatches_bind hnext, ifMatches_bind hnext,
    ifMatches_bind hnext, matches_bind hnext, matches_bind hnext]
  refine ite_congr rfl (fun _ => rfl) fun _ => ite_congr rfl (fun _ => rfl) fun _ =>
    ite_congr rfl (fun _ => rfl) fun _ => ?_
  by_cases hx : x.detail = .keyword .index ∨ x.detail = .keyword .unique
  · rw [if_pos hx, if_pos]
    simpa using hx
  · rw [if_neg hx, if_neg]
    · rfl
    · simpa using hx

theorem parseDrop_eq {x : SqlToken} (h : s.rest = t :: x :: ts) :
    parseDrop s
      = if x.detail = .keyword .index then (.dropIndex <$> parseDropIndex : Parse Statement) s.next
        else .error unsupportedStatement s.next := by
  have hnext : s.next.rest = x :: ts := rest_next h (List.cons_ne_nil _ _)
  unfold parseDrop
  rw [advanceOrInvalid_bind h (List.cons_ne_nil _ _), ifMatches_bind hnext]
  rfl

/-- The result of a method that is wrapped. -/
theorem map_ok {α : Type} {x : Parse α} {a : α} (g : α → β) (h : x s = .ok a s') :
    (g <$> x) s = .ok (g a) s' := by
  rw [map_eq_pure_bind, bind_ok h]
  rfl

/-- **A statement is read.** -/
theorem Reads.returns {stmt : Statement} (h : Reads stmt k surplus w after)
    (hrest : s.rest = w ++ after) : Returns parseStatement s stmt (skip w s) := by
  cases h with
  | @select _ _ _ _ t f _ cw tw ww _ hs hc hf ht hend hw =>
    simp only [List.cons_append, List.append_assoc] at hrest
    refine Returns.of_eq (fun fuel => ?_)
      ((returns_parseSelect hs hc hf ht hend hw hrest).map Statement.select)
    rw [parseStatement_eq hrest, if_pos hs]
  | insert hi hn ht hlp hc hrp hv hlp' hw hclose =>
    simp only [List.cons_append, List.append_assoc] at hrest
    refine Returns.of_eq (fun fuel => ?_)
      ((returns_parseInsert hn ht hlp hc hrp hv hlp' hw hclose hrest).map Statement.insert)
    simp [parseStatement_eq hrest, hi]
  | update hu ht hs ha hw =>
    simp only [List.cons_append, List.append_assoc] at hrest
    refine Returns.of_eq (fun fuel => ?_)
      ((returns_parseUpdate ht hs ha hw hrest).map Statement.update)
    simp [parseStatement_eq hrest, hu]
  | delete hd hf ht hend hw =>
    simp only [List.cons_append, List.append_assoc] at hrest
    refine Returns.of_eq (fun fuel => ?_)
      ((returns_parseDelete hf ht hend hw hrest).map Statement.delete)
    simp [parseStatement_eq hrest, hd]
  | createIndex hc hi hname ho ht hlp hcolumn hclose =>
    simp only [List.cons_append, List.append_assoc, List.nil_append] at hrest
    have hnext := rest_next hrest (List.cons_ne_nil _ _)
    refine returns_of_eq fun fuel => ?_
    rw [parseStatement_eq hrest]
    simp only [hc, hi, parseCreate_eq hrest]
    refine map_ok Statement.createIndex ?_
    rw [parseCreateIndex, ifMatches_bind hnext, if_neg (by simp [hi])]
    exact parseIndexDefinition_tokens hi hname ho ht hlp hcolumn hclose hnext
  | createUniqueIndex hc hu hi hname ho ht hlp hcolumn hclose =>
    simp only [List.cons_append, List.append_assoc, List.nil_append] at hrest
    have hnext := rest_next hrest (List.cons_ne_nil _ _)
    have hnext' := rest_next hnext (List.cons_ne_nil _ _)
    refine returns_of_eq fun fuel => ?_
    rw [parseStatement_eq hrest]
    simp only [hc, hu, parseCreate_eq hrest]
    refine map_ok Statement.createIndex ?_
    rw [parseCreateIndex, ifMatches_bind hnext, if_pos hu,
      advanceOrThrow_bind hnext (List.cons_ne_nil _ _)]
    exact parseIndexDefinition_tokens hi hname ho ht hlp hcolumn hclose hnext'
  | dropIndex hd hi hname ho ht hend =>
    simp only [List.cons_append] at hrest
    have hnext := rest_next hrest (List.cons_ne_nil _ _)
    refine returns_of_eq fun fuel => ?_
    rw [parseStatement_eq hrest]
    simp only [hd, hi, parseDrop_eq hrest]
    exact map_ok Statement.dropIndex (parseDropIndex_tokens hi hname ho ht hend hnext)

end Statements

/-! ## Inputs -/

/-- What the last check accepts at the cursor: one token, whatever it is, and a
semicolon behind it. -/
def EndsAt (rest : List SqlToken) : Prop :=
  rest = [] ∨ (∃ x, rest = [x]) ∨ ∃ x t, rest = [x, t] ∧ IsSemicolon t

theorem checkTrailing_ok (h : EndsAt s.rest) : checkTrailing s = .ok () s := by
  unfold checkTrailing
  rcases h with hrest | ⟨x, hrest⟩ | ⟨x, t, hrest, ht⟩
  · simp [hrest, isTrailingSequenceValid]
  · simp [hrest, isTrailingSequenceValid]
  · have ht : t.detail = .symbol .semicolon := ht
    simp [hrest, isTrailingSequenceValid, ht]

theorem Reads.ne_nil {stmt : Statement} {surplus : List SqlToken}
    (h : Reads stmt k surplus w after) : w ≠ [] := by
  cases h <;> exact List.cons_ne_nil _ _

theorem Trailing.endsAt {extra : List SqlToken} (h : Trailing k extra after) : EndsAt after := by
  cases h with
  | nothing => exact Or.inl rfl
  | semicolon _ => exact Or.inr (Or.inl ⟨_, rfl⟩)
  | surplus _ => exact Or.inr (Or.inl ⟨_, rfl⟩)
  | surplusSemicolon h => exact Or.inr (Or.inr ⟨_, _, rfl, h⟩)
  | closed _ => exact Or.inr (Or.inl ⟨_, rfl⟩)
  | closedSemicolon _ h => exact Or.inr (Or.inr ⟨_, _, rfl, h⟩)

/-- With enough fuel the parser returns a statement. -/
def Parses (ts : List SqlToken) (stmt : Statement) : Prop :=
  ∃ n, ∀ fuel ≥ n, SqlParser.run fuel ts = .ok stmt

/-- **The parser reads every input of its grammar.** -/
theorem parses_of_accepts {stmt : Statement} {missing : ℕ} {surplus : List SqlToken}
    (h : Accepts stmt missing surplus ts) : Parses ts stmt := by
  cases h with
  | @intro k inner extra w after hreads htrailing =>
    obtain ⟨n, hread⟩ := hreads.returns (s := { rest := w ++ after }) rfl
    -- at the end of the input the cursor is on the last token
    have hends : EndsAt (skip w { rest := w ++ after }).rest := by
      cases after with
      | nil =>
        obtain ⟨w', t, rfl⟩ := (List.eq_nil_or_concat' w).resolve_left hreads.ne_nil
        rw [rest_skip_last (List.append_nil _)]
        exact Or.inr (Or.inl ⟨t, rfl⟩)
      | cons t ts =>
        rw [rest_skip rfl (List.cons_ne_nil _ _)]
        exact htrailing.endsAt
    refine ⟨n, fun fuel hfuel => ?_⟩
    rw [SqlParser.run, SqlParser.parse, bind_ok (hread fuel hfuel),
      bind_ok (checkTrailing_ok hends)]
    rfl

/-! ## Renderings without parentheses -/

/-- **The input of a statement**: its rendering, less at most one final
semicolon. -/
inductive InputOf (body : List SqlToken) : List SqlToken → Prop
  | plain : InputOf body body
  | semicolon {t : SqlToken} (h : IsSemicolon t) : InputOf body (body ++ [t])

/-- **The statements that change rows**, with assignments and a condition that the
parser takes. -/
inductive ChangesRows : Statement → Prop
  | insert (stmt : InsertStatement) : ChangesRows (.insert stmt)
  | update {stmt : UpdateStatement} (ha : ∀ e ∈ stmt.assignments, IsAssignment e)
      (hw : ∀ e ∈ stmt.where_, e.isBinaryExpr = true) : ChangesRows (.update stmt)
  | delete {stmt : DeleteStatement} (hw : ∀ e ∈ stmt.where_, e.isBinaryExpr = true) :
      ChangesRows (.delete stmt)

/-- What may follow a statement. -/
def AtEnd (after : List SqlToken) : Prop := after = [] ∨ ∃ t, IsSemicolon t ∧ after = [t]

theorem AtEnd.trailing (h : AtEnd after) : Trailing 0 [] after := by
  rcases h with rfl | ⟨t, ht, rfl⟩
  · exact .nothing
  · exact .semicolon ht

theorem AtEnd.notNext {d : SqlTokenDetail} (h : AtEnd after) (hd : d ≠ .symbol .semicolon) :
    NotNext d after := by
  intro x xs hx hdetail
  rcases h with rfl | ⟨t, ht, rfl⟩
  · cases hx
  · obtain ⟨rfl, -⟩ := List.cons.inj hx
    exact hd (hdetail.symm.trans ht)

theorem AtEnd.stops (h : AtEnd after) : Stops 0 after := by
  intro x xs op hx ho
  rcases h with rfl | ⟨t, ht, rfl⟩
  · cases hx
  · obtain ⟨rfl, -⟩ := List.cons.inj hx
    have ht : t.detail = .symbol .semicolon := ht
    rw [operatorOf, ht] at ho
    cases ho

theorem AssignmentsRead.of_commas {es : List ExprNode} (h : Commas (OpenRendering 0 0) es w)
    (ha : ∀ e ∈ es, IsAssignment e) (hstops : Stops 0 after)
    (hcomma : NotNext (.symbol .comma) after) : AssignmentsRead es 0 w after := by
  induction h with
  | single hw => exact .single hw (ha _ (List.mem_singleton_self _)) hstops hcomma
  | cons hw hc _ ih =>
    exact .cons hw (ha _ List.mem_cons_self) hc (ih fun e he => ha e (List.mem_cons_of_mem _ he))

theorem WhereReads.of_tokens (h : WhereTokens (OpenRendering 0 0) where_ w)
    (hw : ∀ e ∈ where_, e.isBinaryExpr = true) (hafter : AtEnd after) :
    WhereReads where_ 0 w after := by
  cases h with
  | none => exact .none (hafter.notNext (fun h => nomatch h))
  | some ht h => exact .some ht h (hw _ rfl) hafter.stops

/-- What follows the parts of a statement in front of its `WHERE`. -/
theorem WhereTokens.notNext {d : SqlTokenDetail} (h : WhereTokens (OpenRendering 0 0) where_ w)
    (hafter : AtEnd after) (hd : d ≠ .symbol .semicolon) (hwhere : d ≠ .keyword .where_) :
    NotNext d (w ++ after) := by
  cases h with
  | none => exact hafter.notNext hd
  | some ht _ =>
    intro x xs hx hdetail
    obtain ⟨rfl, -⟩ := List.cons.inj hx
    exact hwhere (hdetail.symm.trans ht)

theorem WhereTokens.stops (h : WhereTokens (OpenRendering 0 0) where_ w) (hafter : AtEnd after) :
    Stops 0 (w ++ after) := by
  cases h with
  | none => exact hafter.stops
  | some ht _ =>
    intro x xs op hx ho
    obtain ⟨rfl, -⟩ := List.cons.inj hx
    rw [operatorOf, ht] at ho
    cases ho

/-- A rendering without parentheses is in the grammar, without surplus tokens. -/
theorem accepts_of_renders {stmt : Statement} {body : List SqlToken} (hstmt : ChangesRows stmt)
    (h : Renders (OpenRendering 0 0) stmt body) (hafter : AtEnd after) :
    Accepts stmt 0 [] (body ++ after) := by
  cases h with
  | @insert table columns values i n lp rp v lp' rp' tw cw vw hi hn ht hlp hc hrp hv hlp' hw hrp' =>
    have hlist : InsertList columns [] cw := by
      cases hc with
      | all hx => exact .all hx
      | listed h => exact .columns h
    have hclose : Closes (rp' :: after) := ⟨rp', after, rfl, hrp'⟩
    have hreads := Reads.insert hi hn ht hlp hlist hrp hv hlp' hw hclose
    have htrailing : Trailing 1 [] (rp' :: after) := by
      rcases hafter with rfl | ⟨t, hsemicolon, rfl⟩
      · exact .closed hrp'
      · exact .closedSemicolon hrp' hsemicolon
    have haccepts := Accepts.intro hreads htrailing
    simp only [List.cons_append, List.append_assoc, List.nil_append] at haccepts ⊢
    exact haccepts
  | @update table es where_ u s tw aw ww hu ht hs ha hw =>
    obtain _ | ⟨hassign, hbinary⟩ := hstmt
    have hread := AssignmentsRead.of_commas ha hassign (hw.stops hafter)
      (hw.notNext hafter (fun h => nomatch h) (fun h => nomatch h))
    have hreads := Reads.update hu ht hs hread (WhereReads.of_tokens hw hbinary hafter)
    exact Accepts.intro hreads hafter.trailing
  | @delete table where_ d f tw ww hd hf ht hw =>
    obtain _ | _ | ⟨hbinary⟩ := hstmt
    have hend : TableEnds table (ww ++ after) := fun _ =>
      hw.notNext hafter (fun h => nomatch h) (fun h => nomatch h)
    have hreads := Reads.delete hd hf ht hend (WhereReads.of_tokens hw hbinary hafter)
    exact Accepts.intro hreads hafter.trailing
  | select _ _ _ _ _ => cases hstmt
  | createIndex _ _ _ _ _ _ _ _ => cases hstmt
  | createUniqueIndex _ _ _ _ _ _ _ _ _ => cases hstmt
  | dropIndex _ _ _ _ _ => cases hstmt

/-- **A statement that changes rows and is spelt without parentheses is returned as
it is**, with or without a final semicolon. -/
theorem parses_of_renders {stmt : Statement} {body : List SqlToken} (hstmt : ChangesRows stmt)
    (h : Renders (OpenRendering 0 0) stmt body) (hts : InputOf body ts) : Parses ts stmt := by
  cases hts with
  | plain =>
    have haccepts := accepts_of_renders hstmt h (Or.inl rfl)
    rw [List.append_nil] at haccepts
    exact parses_of_accepts haccepts
  | semicolon ht => exact parses_of_accepts (accepts_of_renders hstmt h (Or.inr ⟨_, ht, rfl⟩))

end Forward

/-- A token that is spelt in some way. -/
def spelt (s : String) (detail : SqlTokenDetail) : SqlToken :=
  { value := s.toUTF8.toList, line := 1, pos := 0, detail }

/-- `a == 1 OR b IS NOT NULL`. -/
def conditionTokens : List SqlToken :=
  [spelt "a" .identifier, spelt "==" (.operator .eq), spelt "1" (.literal .integer),
    spelt "or" (.operator .or), spelt "b" .identifier, spelt "is" (.keyword .is),
    spelt "not" (.keyword .not), spelt "null" (.keyword .null)]

/-- What it stands for. -/
def condition : ExprNode :=
  .binaryExpr .or
    (.binaryExpr .eq (.identifier (spelt "a" .identifier))
      (.literal (spelt "1" (.literal .integer))))
    (.binaryExpr .neq (.identifier (spelt "b" .identifier))
      (.literal (spelt "null" (.literal .null))))

theorem rendering_condition : OpenRendering 0 0 condition conditionTokens := by
  have hleft : OpenRendering 0 (priority .or) _
      ([spelt "a" .identifier] ++ ([spelt "==" (.operator .eq)]
        ++ [spelt "1" (.literal .integer)])) :=
    .binary (.single rfl) (by decide) (.operand (.identifier rfl)) (.operand (.literal rfl))
  have hright : OpenRendering 0 (priority .or + 1) _
      ([spelt "b" .identifier] ++ ([spelt "is" (.keyword .is), spelt "not" (.keyword .not)]
        ++ [spelt "null" (.keyword .null)])) :=
    .binary (.isNot rfl rfl) (by decide) (.operand (.identifier rfl)) (.operand (.null rfl))
  have hor : OperatorTokens .or .or [spelt "or" (.operator .or)] := .single rfl
  exact .binary hor (Nat.zero_le _) hleft hright

/-- `DELETE FROM t WHERE a == 1 OR b IS NOT NULL;`. -/
theorem parses_of_renders_delete :
    Parses
      ([spelt "delete" (.keyword .delete), spelt "from" (.keyword .from_), spelt "t" .identifier,
        spelt "where" (.keyword .where_)] ++ conditionTokens ++ [spelt ";" (.symbol .semicolon)])
      (.delete { table := { tableName := spelt "t" .identifier }, where_ := some condition }) := by
  have hstmt : ChangesRows
      (.delete { table := { tableName := spelt "t" .identifier }, where_ := some condition }) := by
    refine .delete fun e he => ?_
    obtain rfl := Option.some.inj he
    rfl
  have hrenders := Renders.delete (X := OpenRendering 0 0) (d := spelt "delete" (.keyword .delete))
    (f := spelt "from" (.keyword .from_)) rfl rfl (.plain (t := spelt "t" .identifier) rfl)
    (.some (t := spelt "where" (.keyword .where_)) rfl rendering_condition)
  have hsemicolon : IsSemicolon (spelt ";" (.symbol .semicolon)) := rfl
  exact parses_of_renders hstmt hrenders (.semicolon hsemicolon)

end Sql
