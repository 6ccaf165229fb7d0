import Deltabase.Sql.StatementParsing

/-!
# What the parser returns

Nothing is returned that is not in the parser's grammar. A run of a method that
has not thrown has gone through its checks, so the tokens that it has moved over
are of the shape that the checks ask for; this is said once for each method
(`parseTableIdentifier_shape` and the like), of the runs that return as well as of
those that never come to an end.
-/

namespace Sql

open SqlParser Stateful

/-! ## Runs that have not thrown -/

/-- A run that has thrown an exception. -/
def Threw {α : Type} (r : EStateM.Result ParseStop SqlParser α) : Prop :=
  ∃ e s, r = .error (.threw e) s

section Shapes

variable {α β : Type} {s s' : SqlParser} {f : Unit → Parse β} {m : String}

theorem not_threw_ok {a : α} {r : EStateM.Result ParseStop SqlParser α} (h : r = .ok a s) :
    ¬ Threw r := by
  rintro ⟨e, s', hthrew⟩
  rw [h] at hthrew
  cases hthrew

/-- The first part of a sequence has not thrown. -/
theorem not_threw_bind {x : Parse α} {f : α → Parse β} (h : ¬ Threw ((x >>= f) s)) :
    ¬ Threw (x s) := by
  rintro ⟨e, s', hx⟩
  exact h ⟨e, s', bind_error hx⟩

/-- Where there is no token, none is matched. -/
theorem isAt_nil (h : s.rest = []) (p : SqlToken → Bool) : isAt p s = .ok false s := by
  unfold isAt
  rw [h]
  rfl

/-- `advance_or_throw` has found another token. -/
theorem advanceOrThrow_shape (h : ¬ Threw ((advanceOrThrow m >>= f) s)) :
    ∃ t after, s.rest = t :: after ∧ after ≠ []
      ∧ (advanceOrThrow m >>= f) s = f () s.next := by
  by_cases hlength : 1 < s.rest.length
  · cases hrest : s.rest with
    | nil =>
      rw [hrest] at hlength
      cases hlength
    | cons t after =>
      have hafter : after ≠ [] := by
        rintro rfl
        rw [hrest] at hlength
        exact absurd hlength (lt_irrefl _)
      exact ⟨t, after, rfl, hafter, advanceOrThrow_bind hrest hafter m f⟩
  · have hthrows : advanceOrThrow m s = .error (.threw (.runtimeError m)) s.next := by
      rw [advanceOrThrow, advance_bind, decide_eq_false hlength]
      rfl
    exact absurd ⟨_, _, bind_error hthrows⟩ h

/-- `match_or_throw` has found the token. -/
theorem matchOrThrow_shape {d : SqlTokenDetail} (h : ¬ Threw ((matchOrThrow d m >>= f) s)) :
    ∃ t ts, s.rest = t :: ts ∧ t.detail = d ∧ (matchOrThrow d m >>= f) s = f () s := by
  have hthrows : matchOrThrow d m s ≠ .error (.threw (.invalidStatementSyntax m)) s :=
    fun hthrows => h ⟨_, _, bind_error hthrows⟩
  cases hrest : s.rest with
  | nil =>
    refine absurd ?_ hthrows
    have hat : matches_ d s = .ok false s := isAt_nil hrest _
    rw [matchOrThrow, bind_ok hat]
    rfl
  | cons t ts =>
    by_cases ht : t.detail = d
    · exact ⟨t, ts, rfl, ht, matchOrThrow_bind hrest ht m f⟩
    · refine absurd ?_ hthrows
      rw [matchOrThrow, ifMatches_bind hrest, if_neg ht]
      rfl

/-- `match_or_throw` of a type has found a token of it. -/
theorem matchTypeOrThrow_shape {d : SqlTokenType} (h : ¬ Threw ((matchTypeOrThrow d m >>= f) s)) :
    ∃ t ts, s.rest = t :: ts ∧ t.type = d ∧ (matchTypeOrThrow d m >>= f) s = f () s := by
  have hthrows : matchTypeOrThrow d m s ≠ .error (.threw (.invalidStatementSyntax m)) s :=
    fun hthrows => h ⟨_, _, bind_error hthrows⟩
  cases hrest : s.rest with
  | nil =>
    refine absurd ?_ hthrows
    have hat : matchesType d s = .ok false s := isAt_nil hrest _
    rw [matchTypeOrThrow, bind_ok hat]
    rfl
  | cons t ts =>
    by_cases ht : t.type = d
    · exact ⟨t, ts, rfl, ht, matchTypeOrThrow_bind hrest ht m f⟩
    · refine absurd ?_ hthrows
      rw [matchTypeOrThrow, ifMatchesType_bind hrest, if_neg ht]
      rfl

/-! ## Tables -/

/-- **A table has been read.** -/
theorem parseTableIdentifier_shape (h : ¬ Threw (parseTableIdentifier s)) :
    ∃ table w after, s.rest = w ++ after ∧ TableTokens table w ∧ TableEnds table after := by
  unfold parseTableIdentifier at h
  obtain ⟨t, ts, hrest, ht, heq⟩ := matchTypeOrThrow_shape h
  have hid : IsIdentifier t := SqlToken.type_eq_identifier.mp ht
  rw [heq, current_bind hrest, advance_bind] at h
  cases ts with
  | nil =>
    refine ⟨{ tableName := t }, [t], [], hrest, .plain hid, fun _ x xs hx => ?_⟩
    cases hx
  | cons x xs =>
    have hnext : s.next.rest = x :: xs := rest_next hrest (List.cons_ne_nil _ _)
    rw [ifMatches_bind hnext] at h
    by_cases hx : x.detail = .symbol .period
    · rw [if_pos hx] at h
      obtain ⟨z, after, hz, hne, heq⟩ := advanceOrThrow_shape h
      obtain ⟨rfl, rfl⟩ := List.cons.inj (hz.symm.trans hnext)
      rw [heq] at h
      obtain ⟨y, ys, hy, hyid, -⟩ := matchTypeOrThrow_shape h
      obtain rfl : after = y :: ys := (rest_next hnext hne).symm.trans hy
      refine ⟨{ tableName := y, schemaName := some t }, [t, z, y], ys, hrest, ?_, fun h => ?_⟩
      · exact .qualified hid hx (SqlToken.type_eq_identifier.mp hyid)
      · cases h
    · refine ⟨{ tableName := t }, [t], x :: xs, hrest, .plain hid, fun _ y ys hy => ?_⟩
      obtain ⟨rfl, -⟩ := List.cons.inj hy
      exact hx

/-- So the method goes on behind it. -/
theorem parseTableIdentifier_bind {f : TableIdentifier → Parse β}
    (h : ¬ Threw ((parseTableIdentifier >>= f) s)) :
    ∃ table w after, s.rest = w ++ after ∧ TableTokens table w ∧ TableEnds table after
      ∧ (parseTableIdentifier >>= f) s = f table (skip w s) := by
  obtain ⟨table, w, after, hrest, ht, hend⟩ := parseTableIdentifier_shape (not_threw_bind h)
  exact ⟨table, w, after, hrest, ht, hend, bind_ok (parseTableIdentifier_tokens ht hrest hend)⟩

/-! ## Lists of tokens -/

/-- A run that has stopped because there was too little fuel. -/
def Starved {α : Type} (bound fuel : ℕ) (r : EStateM.Result ParseStop SqlParser α) : Prop :=
  fuel ≤ bound ∧ ∃ s, r = .error .outOfFuel s

theorem Starved.mono {n n' fuel : ℕ} {r : EStateM.Result ParseStop SqlParser α}
    (h : Starved n fuel r) (hn : n ≤ n') : Starved n' fuel r := ⟨h.1.trans hn, h.2⟩

/-- A token of a type. -/
def OfType (type : SqlTokenType) (t : SqlToken) : Prop := t.type = type

section Tokens

variable {type : SqlTokenType} {other : Parse (List SqlToken)} {finish : Parse Unit} {fuel : ℕ}

/-- **How the loop over a list of tokens ends**: the tokens it has read, those it has
moved over, and whether it has come to the end of the list, which no comma follows,
or to a token of another type, in front of the list or behind a comma. -/
inductive ListEnds (type : SqlTokenType) (rest : List SqlToken) :
    Bool → List SqlToken → List SqlToken → Prop
  | finished {t : SqlToken} {items cs tail : List SqlToken} (hrest : rest = t :: (cs ++ tail))
      (hcs : Commas (Itself (OfType type)) items cs) (htail : NotNext (.symbol .comma) tail) :
      ListEnds type rest true items (t :: cs)
  | empty {t x : SqlToken} {tail : List SqlToken} (hrest : rest = t :: x :: tail)
      (hx : x.type ≠ type) : ListEnds type rest false [] [t]
  | comma {t c x : SqlToken} {items cs tail : List SqlToken}
      (hrest : rest = t :: (cs ++ c :: x :: tail))
      (hcs : Commas (Itself (OfType type)) items cs) (hc : c.detail = .symbol .comma)
      (hx : x.type ≠ type) : ListEnds type rest false items (t :: (cs ++ [c]))

/-- What the loop does at its end. -/
def listEnd (other : Parse (List SqlToken)) (finish : Parse Unit) (finished : Bool)
    (items : List SqlToken) : Parse (List SqlToken) :=
  (if finished = true then finish >>= fun _ => pure [] else other) >>= fun ys => pure (items ++ ys)

/-- The loop at a token of its type. -/
theorem parseTokens_step {t a : SqlToken} {after : List SqlToken} (h : s.rest = t :: a :: after)
    (ha : a.type = type) :
    parseTokens type other finish (fuel + 1) s
      = (advanceToComma >>= fun b =>
          if b = true then parseTokens type other finish fuel >>= fun tokens => pure (a :: tokens)
          else finish >>= fun _ => pure [a]) s.next := by
  have hnext : s.next.rest = a :: after := rest_next h (List.cons_ne_nil _ _)
  rw [parseTokens, advanceOrThrow_bind h (List.cons_ne_nil _ _), ifMatchesType_bind hnext,
    if_pos ha, current_bind hnext]

/-- A token and a comma in front of the list. -/
theorem ListEnds.cons {t a c : SqlToken} {after items w : List SqlToken} {finished : Bool}
    (ha : a.type = type) (hc : c.detail = .symbol .comma)
    (h : ListEnds type (c :: after) finished items w) :
    ListEnds type (t :: a :: c :: after) finished (a :: items) (t :: a :: w) := by
  cases h with
  | @finished z items cs tail hrest hcs htail =>
    obtain ⟨rfl, rfl⟩ := List.cons.inj hrest
    have hlist : Commas (Itself (OfType type)) (a :: items) ([a] ++ c :: cs) :=
      .cons (.intro ha) hc hcs
    exact .finished rfl hlist htail
  | @empty z x tail hrest hx =>
    obtain ⟨rfl, rfl⟩ := List.cons.inj hrest
    have hlist : Commas (Itself (OfType type)) [a] [a] := .single (.intro ha)
    exact .comma rfl hlist hc hx
  | @comma z c' x items cs tail hrest hcs hc' hx =>
    obtain ⟨rfl, rfl⟩ := List.cons.inj hrest
    have hlist : Commas (Itself (OfType type)) (a :: items) ([a] ++ c :: cs) :=
      .cons (.intro ha) hc hcs
    exact .comma rfl hlist hc' hx

/-- **A list of tokens has been read**, or there was too little fuel. -/
theorem parseTokens_shape : ∀ {fuel : ℕ} {s : SqlParser},
    ¬ Threw (parseTokens type other finish fuel s) →
      Starved s.rest.length fuel (parseTokens type other finish fuel s)
        ∨ ∃ finished items w, ListEnds type s.rest finished items w
          ∧ parseTokens type other finish fuel s
            = listEnd other finish finished items (skip w s) := by
  intro fuel
  induction fuel with
  | zero => exact fun _ => Or.inl ⟨Nat.zero_le _, _, rfl⟩
  | succ fuel ih =>
    intro s h
    have hadvance := h
    rw [parseTokens] at hadvance
    obtain ⟨t, after, hrest, hne, -⟩ := advanceOrThrow_shape hadvance
    obtain ⟨a, after, rfl⟩ := List.exists_cons_of_ne_nil hne
    by_cases ha : a.type = type
    · rw [parseTokens_step hrest ha] at h ⊢
      have hnext : s.next.rest = a :: after := rest_next hrest hne
      have hsingle : Commas (Itself (OfType type)) [a] [a] := .single (.intro ha)
      rw [hrest]
      cases after with
      | nil =>
        have hcomma : advanceToComma s.next = .ok false s.next := by
          rw [advanceToComma, advance_bind, hnext, next_of_single hnext]
          rfl
        refine Or.inr ⟨true, [a], [t, a], .finished rfl hsingle (fun x xs hx => by cases hx), ?_⟩
        rw [bind_ok hcomma, skip_cons, skip_cons, skip_nil, next_of_single hnext]
        simp [listEnd]
      | cons x xs =>
        rw [advanceToComma_bind hnext] at h ⊢
        by_cases hx : x.detail = .symbol .comma
        · have hat : s.next.next.rest = x :: xs := rest_next hnext (List.cons_ne_nil _ _)
          rw [if_pos (beq_iff_eq.mpr hx)] at h ⊢
          rcases ih (not_threw_bind h) with ⟨hfuel, s', hstarved⟩ | ⟨finished, items, w, hends, heq⟩
          · rw [hat] at hfuel
            exact Or.inl ⟨Nat.succ_le_succ (hfuel.trans (Nat.le_succ _)), s', bind_error hstarved⟩
          · rw [hat] at hends
            refine Or.inr ⟨finished, a :: items, t :: a :: w, hends.cons ha hx, ?_⟩
            have hbind : (parseTokens type other finish fuel >>= fun tokens => pure (a :: tokens))
                s.next.next = (listEnd other finish finished items >>= fun tokens =>
                  pure (a :: tokens)) (skip w s.next.next) := bind_congr heq
            rw [hbind]
            simp [listEnd]
        · rw [if_neg (mt beq_iff_eq.mp hx)]
          refine Or.inr ⟨true, [a], [t, a], .finished rfl hsingle ?_, ?_⟩
          · intro y ys hy
            obtain ⟨rfl, -⟩ := List.cons.inj hy
            exact hx
          · simp [listEnd]
    · refine Or.inr ⟨false, [], [t], ?_, ?_⟩
      · rw [hrest]
        exact .empty rfl ha
      · rw [parseTokens_other hrest ha, listEnd]
        simp

/-- The members of a list are tokens of the type, and there is a last. -/
theorem commas_ofType {P : SqlToken → Prop} {items cs : List SqlToken}
    (hP : ∀ t, t.type = type → P t) (h : Commas (Itself (OfType type)) items cs) :
    Commas (Itself P) items cs := by
  induction h with
  | single h =>
    obtain ⟨ha⟩ := h
    exact .single (.intro (hP _ ha))
  | cons h hc _ ih =>
    obtain ⟨ha⟩ := h
    exact .cons (.intro (hP _ ha)) hc ih

theorem identifier_of_type {t : SqlToken} (h : t.type = .identifier) : IsIdentifier t :=
  SqlToken.type_eq_identifier.mp h

theorem literal_of_type {t : SqlToken} (h : t.type = .literal) : IsLiteral t :=
  SqlToken.type_eq_literal.mp h

/-- A list at the end of the input leaves the cursor on its last member. -/
theorem rest_skip_commas {t : SqlToken} {items cs : List SqlToken}
    (hcs : Commas (Itself (OfType type)) items cs) (hrest : s.rest = t :: (cs ++ [])) :
    ∃ u y, cs = u ++ [y] ∧ y.type = type ∧ (skip (t :: cs) s).rest = [y] := by
  obtain ⟨u, y, rfl, hy⟩ := hcs.concat
  rw [List.append_nil] at hrest
  exact ⟨u, y, rfl, hy, rest_skip_last (w := t :: u) hrest⟩

/-- **The columns of a `SELECT` have been read** when another token follows. -/
theorem SelectList.of_ends {finished : Bool} {items w after : List SqlToken} {x : SqlToken}
    (h : ListEnds .identifier s.rest finished items w) (hx : (skip w s).rest = x :: after)
    (hafter : after ≠ []) :
    ∃ t surplus cw, SelectList items surplus cw ∧ s.rest = t :: (cw ++ after)
      ∧ skip (t :: cw) s = (skip w s).next := by
  have hid : ∀ {x : SqlToken}, x.type ≠ .identifier → ¬ IsIdentifier x := fun hx h =>
    hx h.type
  cases h with
  | @finished t items cs tail hrest hcs htail =>
    cases tail with
    | nil =>
      obtain ⟨u, y, -, -, hlast⟩ := rest_skip_commas hcs hrest
      obtain ⟨-, rfl⟩ := List.cons.inj (hlast.symm.trans hx)
      exact absurd rfl hafter
    | cons y ys =>
      have hy : (skip (t :: cs) s).rest = y :: ys :=
        rest_skip (w := t :: cs) hrest (List.cons_ne_nil _ _)
      obtain ⟨rfl, rfl⟩ := List.cons.inj (hy.symm.trans hx)
      refine ⟨t, [y], cs ++ [y], .columns (commas_ofType (fun _ => identifier_of_type) hcs)
        (htail y ys rfl), ?_, ?_⟩
      · rw [hrest, List.append_assoc, List.singleton_append]
      · exact skip_append (t :: cs) [y]
  | @empty t y tail hrest hy =>
    have hat : (skip [t] s).rest = y :: tail :=
      rest_skip (w := [t]) hrest (List.cons_ne_nil _ _)
    obtain ⟨rfl, rfl⟩ := List.cons.inj (hat.symm.trans hx)
    by_cases hmul : y.detail = .operator .mul
    · exact ⟨t, [], [y], .all hmul, hrest, rfl⟩
    · exact ⟨t, [y], [y], .other hmul (hid hy), hrest, rfl⟩
  | @comma t c y items cs tail hrest hcs hc hy =>
    have hall : s.rest = (t :: (cs ++ [c])) ++ y :: tail := by
      rw [hrest]
      simp
    have hat : (skip (t :: (cs ++ [c])) s).rest = y :: tail :=
      rest_skip hall (List.cons_ne_nil _ _)
    obtain ⟨rfl, rfl⟩ := List.cons.inj (hat.symm.trans hx)
    refine ⟨t, [c, y], cs ++ [c, y],
      .comma (commas_ofType (fun _ => identifier_of_type) hcs) hc (hid hy), ?_, ?_⟩
    · rw [hrest, List.append_assoc]
      rfl
    · have happend : t :: (cs ++ [c, y]) = (t :: (cs ++ [c])) ++ [y] := by simp
      rw [happend]
      exact skip_append _ [y]

/-- **Behind a list from which the loop has stepped back** is what the list is
followed by; a list at the end of the input is followed by its last member. -/
theorem listEnd_back {items w : List SqlToken} (other : Parse (List SqlToken))
    (h : ListEnds type s.rest true items w) :
    ∃ s₁, listEnd other stepBack true items (skip w s) = .ok items s₁
      ∧ ((∃ t cs y x xs, w = t :: cs ∧ s.rest = t :: (cs ++ x :: xs)
            ∧ Commas (Itself (OfType type)) items cs ∧ s₁.rest = y :: x :: xs
            ∧ s₁.next = skip w s)
          ∨ ∃ z y, s₁.rest = [z, y] ∧ y.type = type) := by
  cases h with
  | @finished t items cs tail hrest hcs htail =>
    obtain ⟨u, y, rfl, hy⟩ := hcs.concat
    have hdone : ∀ {s₁}, stepBack (skip (t :: (u ++ [y])) s) = .ok () s₁ →
        listEnd other stepBack true items (skip (t :: (u ++ [y])) s) = .ok items s₁ := by
      intro s₁ hback
      have hparts : listEnd other stepBack true items
          = stepBack >>= fun _ => (pure items : Parse (List SqlToken)) := by simp [listEnd]
      rw [hparts, bind_ok hback]
      rfl
    cases tail with
    | nil =>
      -- the cursor is on the last member, and goes back to the token in front of it
      obtain ⟨v, z, hz⟩ := (List.eq_nil_or_concat' (t :: u)).resolve_left (List.cons_ne_nil _ _)
      have hall : s.rest = v ++ (z :: [y]) := by
        rw [hrest, List.append_nil, ← List.cons_append, hz, List.append_assoc]
        rfl
      have hat : (skip v s).rest = [z, y] := rest_skip hall (List.cons_ne_nil _ _)
      have hnext : (skip v s).next.rest = [y] := rest_next hat (List.cons_ne_nil _ _)
      have hskip : skip (t :: (u ++ [y])) s = (skip v s).next := by
        rw [← List.cons_append, hz, skip_append, skip_append, skip_cons, skip_nil, skip_cons,
          skip_nil, next_of_single hnext]
      refine ⟨skip v s, hdone ?_, Or.inr ⟨z, y, hat, hy⟩⟩
      rw [hskip]
      exact stepBack_next hat (List.cons_ne_nil _ _)
    | cons x xs =>
      have hat : (skip (t :: u) s).rest = y :: x :: xs := by
        rw [List.append_assoc] at hrest
        exact rest_skip (w := t :: u) hrest (List.cons_ne_nil _ _)
      have hskip : skip (t :: (u ++ [y])) s = (skip (t :: u) s).next := skip_append (t :: u) [y]
      refine ⟨skip (t :: u) s, hdone ?_, Or.inl ⟨t, _, y, x, xs, rfl, hrest, hcs, hat, hskip.symm⟩⟩
      rw [hskip]
      exact stepBack_next hat (List.cons_ne_nil _ _)

end Tokens

section Lists

variable {fuel : ℕ} {f : List SqlToken → Parse β} {m m' : String}

theorem Starved.bind {x : Parse α} {f : α → Parse β} {n : ℕ} (h : Starved n fuel (x s)) :
    Starved n fuel ((x >>= f) s) := by
  obtain ⟨hfuel, s', hx⟩ := h
  exact ⟨hfuel, s', bind_error hx⟩

/-- **The columns of a `SELECT`**, behind which a token is passed over. -/
theorem parseSelectColumns_shape
    (h : ¬ Threw ((parseSelectColumns fuel >>= fun columns => advanceOrThrow m >>= fun _ =>
      f columns) s)) :
    Starved s.rest.length fuel ((parseSelectColumns fuel >>= fun columns =>
        advanceOrThrow m >>= fun _ => f columns) s)
      ∨ ∃ t columns surplus cw after, SelectList columns surplus cw
        ∧ s.rest = t :: (cw ++ after) ∧ after ≠ []
        ∧ (parseSelectColumns fuel >>= fun columns => advanceOrThrow m >>= fun _ => f columns) s
          = f columns (skip (t :: cw) s) := by
  rcases parseTokens_shape (not_threw_bind h) with hstarved | ⟨finished, columns, w, hends, heq⟩
  · exact Or.inl hstarved.bind
  · have hlist : parseSelectColumns fuel s = .ok columns (skip w s) := by
      refine heq.trans ?_
      cases finished <;> simp [listEnd] <;> rfl
    rw [bind_ok hlist] at h ⊢
    obtain ⟨x, after, hx, hne, heq⟩ := advanceOrThrow_shape h
    obtain ⟨t, surplus, cw, hselect, hrest, hskip⟩ := SelectList.of_ends hends hx hne
    refine Or.inr ⟨t, columns, surplus, cw, after, hselect, hrest, hne, ?_⟩
    rw [heq, hskip]

/-- A token has been passed over, and there is a right parenthesis behind it. -/
theorem closing_shape {g : Parse β} (h : ¬ Threw ((advanceOrThrow m >>= fun _ =>
      matchOrThrow (.symbol .rparen) m' >>= fun _ => g) s)) :
    ∃ y rp ts, s.rest = y :: rp :: ts ∧ rp.detail = .symbol .rparen
      ∧ (advanceOrThrow m >>= fun _ => matchOrThrow (.symbol .rparen) m' >>= fun _ => g) s
        = g s.next := by
  obtain ⟨y, after, hy, hne, hadvance⟩ := advanceOrThrow_shape h
  rw [hadvance] at h
  obtain ⟨rp, ts, hrp, hrparen, hmatch⟩ := matchOrThrow_shape h
  refine ⟨y, rp, ts, ?_, hrparen, hadvance.trans hmatch⟩
  rw [hy, ← rest_next hy hne, hrp]

/-- **The columns of an `INSERT`**, behind which there is a right parenthesis. -/
theorem parseInsertColumns_shape
    (h : ¬ Threw ((parseInsertColumns fuel >>= fun columns => advanceOrThrow m >>= fun _ =>
      matchOrThrow (.symbol .rparen) m' >>= fun _ => f columns) s)) :
    Starved s.rest.length fuel ((parseInsertColumns fuel >>= fun columns =>
        advanceOrThrow m >>= fun _ => matchOrThrow (.symbol .rparen) m' >>= fun _ => f columns) s)
      ∨ ∃ t columns surplus cw after, InsertList columns surplus cw
        ∧ s.rest = t :: (cw ++ after) ∧ Closes after
        ∧ (parseInsertColumns fuel >>= fun columns => advanceOrThrow m >>= fun _ =>
            matchOrThrow (.symbol .rparen) m' >>= fun _ => f columns) s
          = f columns (skip (t :: cw) s) := by
  have hid : ∀ {x : SqlToken}, x.type ≠ .identifier → ¬ IsIdentifier x := fun hx h =>
    hx h.type
  rcases parseTokens_shape (not_threw_bind h) with hstarved | ⟨finished, columns, w, hends, heq⟩
  · exact Or.inl hstarved.bind
  cases finished with
  | true =>
    obtain ⟨s₁, hback, hat⟩ := listEnd_back (pure []) hends
    have hlist : parseInsertColumns fuel s = .ok columns s₁ := heq.trans hback
    rw [bind_ok hlist] at h ⊢
    obtain ⟨y, rp, ts, hy, hrparen, hclosing⟩ := closing_shape h
    rw [hclosing]
    rcases hat with ⟨t, cs, z, x, xs, rfl, hrest, hcs, hz, hskip⟩ | ⟨z, x, hz, hx⟩
    · obtain ⟨rfl, hxs⟩ := List.cons.inj (hz.symm.trans hy)
      obtain ⟨rfl, rfl⟩ := List.cons.inj hxs
      refine Or.inr ⟨t, columns, [], cs, x :: xs,
        .columns (commas_ofType (fun _ => identifier_of_type) hcs), hrest, ⟨x, xs, rfl, hrparen⟩,
          ?_⟩
      rw [hskip]
    · -- a list at the end of the input has no parenthesis behind it
      obtain ⟨-, hxs⟩ := List.cons.inj (hz.symm.trans hy)
      obtain ⟨rfl, -⟩ := List.cons.inj hxs
      rw [SqlToken.type_eq_identifier, hrparen] at hx
      cases hx
  | false =>
    have hlist : parseInsertColumns fuel s = .ok columns (skip w s) := by
      refine heq.trans ?_
      simp [listEnd]
      rfl
    rw [bind_ok hlist] at h ⊢
    obtain ⟨x, rp, ts, hx, hrparen, hclosing⟩ := closing_shape h
    rw [hclosing]
    have hclose : Closes (rp :: ts) := ⟨rp, ts, rfl, hrparen⟩
    cases hends with
    | @empty t y tail hrest hy =>
      have hat : (skip [t] s).rest = y :: tail :=
        rest_skip (w := [t]) hrest (List.cons_ne_nil _ _)
      obtain ⟨rfl, rfl⟩ := List.cons.inj (hat.symm.trans hx)
      by_cases hmul : y.detail = .operator .mul
      · exact Or.inr ⟨t, [], [], [y], rp :: ts, .all hmul, hrest, hclose, rfl⟩
      · exact Or.inr ⟨t, [], [y], [y], rp :: ts, .other hmul (hid hy), hrest, hclose, rfl⟩
    | @comma t c y _ cs tail hrest hcs hc hy =>
      have hall : s.rest = (t :: (cs ++ [c])) ++ y :: tail := by
        rw [hrest]
        simp
      have hat : (skip (t :: (cs ++ [c])) s).rest = y :: tail :=
        rest_skip hall (List.cons_ne_nil _ _)
      obtain ⟨rfl, rfl⟩ := List.cons.inj (hat.symm.trans hx)
      have happend : t :: (cs ++ [c, y]) = (t :: (cs ++ [c])) ++ [y] := by simp
      refine Or.inr ⟨t, columns, [c, y], cs ++ [c, y], rp :: ts,
        .comma (commas_ofType (fun _ => identifier_of_type) hcs) hc (hid hy), ?_, hclose, ?_⟩
      · rw [hrest, List.append_assoc]
        rfl
      · rw [happend, skip_append]
        rfl

/-- **The values of an `INSERT`**, behind which there is a right parenthesis. -/
theorem parseInsertValues_shape
    (h : ¬ Threw ((parseInsertValues fuel >>= fun values => advanceOrThrow m >>= fun _ =>
      matchOrThrow (.symbol .rparen) m' >>= fun _ => f values) s)) :
    Starved s.rest.length fuel ((parseInsertValues fuel >>= fun values =>
        advanceOrThrow m >>= fun _ => matchOrThrow (.symbol .rparen) m' >>= fun _ => f values) s)
      ∨ ∃ t values vw after, Commas (Itself IsLiteral) values vw
        ∧ s.rest = t :: (vw ++ after) ∧ Closes after
        ∧ (parseInsertValues fuel >>= fun values => advanceOrThrow m >>= fun _ =>
            matchOrThrow (.symbol .rparen) m' >>= fun _ => f values) s
          = f values (skip (t :: vw) s) := by
  rcases parseTokens_shape (not_threw_bind h) with hstarved | ⟨finished, values, w, hends, heq⟩
  · exact Or.inl hstarved.bind
  cases finished with
  | true =>
    obtain ⟨s₁, hback, hat⟩ := listEnd_back _ hends
    have hlist : parseInsertValues fuel s = .ok values s₁ := heq.trans hback
    rw [bind_ok hlist] at h ⊢
    obtain ⟨y, rp, ts, hy, hrparen, hclosing⟩ := closing_shape h
    rw [hclosing]
    rcases hat with ⟨t, cs, z, x, xs, rfl, hrest, hcs, hz, hskip⟩ | ⟨z, x, hz, hx⟩
    · obtain ⟨rfl, hxs⟩ := List.cons.inj (hz.symm.trans hy)
      obtain ⟨rfl, rfl⟩ := List.cons.inj hxs
      refine Or.inr ⟨t, values, cs, x :: xs, commas_ofType (fun _ => literal_of_type) hcs, hrest,
        ⟨x, xs, rfl, hrparen⟩, ?_⟩
      rw [hskip]
    · obtain ⟨-, hxs⟩ := List.cons.inj (hz.symm.trans hy)
      obtain ⟨rfl, -⟩ := List.cons.inj hxs
      obtain ⟨l, hl⟩ := SqlToken.type_eq_literal.mp hx
      rw [hrparen] at hl
      cases hl
  | false =>
    -- a token that is no literal throws
    have hthrows : parseInsertValues fuel s = .error _ (skip w s) := heq
    exact absurd ⟨_, _, bind_error hthrows⟩ h

end Lists

/-! ## Conditions -/

section Conditions

variable {fuel k : ℕ} {e : ExprNode} {where_ : Option ExprNode} {after : List SqlToken}

/-- **A binary expression has been read.** -/
theorem parseBinaryExpr_eq_ok (h : parseBinaryExpr fuel 0 s = .ok e s') :
    ∃ k w after, s.rest = w ++ after ∧ OpenRendering k 0 e w ∧ e.isBinaryExpr = true
      ∧ Follows k 0 after ∧ s' = skip w s := by
  obtain ⟨tree, s₁, htree, hnode⟩ := bind_eq_ok h
  obtain ⟨rfl, rfl, hbinary⟩ := toBinaryExpr_eq_ok hnode
  obtain ⟨k, w, after, hrest, hw, hfollows, hskip⟩ := parseBinaryTree_sound (Nat.zero_le _) htree
  exact ⟨k, w, after, hrest, hw, hbinary, hfollows, hskip⟩

theorem notNext_of_behind {d : SqlTokenDetail} {t : SqlToken} {ts : List SqlToken}
    (h : Behind s after) (hrest : s.rest = t :: ts) (ht : t.detail ≠ d) : NotNext d after := by
  intro x xs hx
  subst hx
  obtain ⟨rfl, -⟩ := List.cons.inj (h.rest_eq.symm.trans hrest)
  exact ht

/-- Behind what has been read there is a token to look at. -/
theorem Behind.exists_cons (h : Behind s after) : ∃ t ts, s.rest = t :: ts := by
  rcases h with ⟨hrest, hne⟩ | ⟨-, t, e, hrest, -⟩
  · obtain ⟨t, ts, rfl⟩ := List.exists_cons_of_ne_nil hne
    exact ⟨t, ts, hrest⟩
  · exact ⟨t, [], hrest⟩

/-- A keyword that the cursor is on is the next token. -/
theorem Behind.eq_cons {d : SqlTokenDetail} {t : SqlToken} {ts : List SqlToken}
    (h : Behind s after) (hrest : s.rest = t :: ts) (ht : t.detail = d) (hd : NoOperand d) :
    after = t :: ts := by
  rcases h with ⟨hafter, -⟩ | ⟨-, x, e, hx, hoperand⟩
  · exact hafter.symm.trans hrest
  · obtain ⟨rfl, -⟩ := List.cons.inj (hx.symm.trans hrest)
    exact absurd ht (hd x e hoperand)

/-- **The `WHERE` of a `SELECT` has been read.** -/
theorem parseSelectWhere_eq_ok {table : TableIdentifier} {columns : List SqlToken}
    {stmt : SelectStatement} (hs : Behind s after)
    (h : parseSelectWhere table columns fuel s = .ok stmt s') :
    ∃ where_ k w after', after = w ++ after' ∧ WhereReads where_ k w after'
      ∧ stmt = { table, columns, where_ } ∧ s' = skip w s := by
  obtain ⟨t, ts, hrest⟩ := hs.exists_cons
  rw [parseSelectWhere, ifMatches_bind hrest] at h
  by_cases ht : t.detail = .keyword .where_
  · obtain rfl := hs.eq_cons hrest ht noOperand_where
    rw [if_pos ht] at h
    obtain ⟨z, zs, hz, hne, hadvance⟩ := advanceOrThrow_shape (not_threw_ok h)
    obtain ⟨rfl, rfl⟩ := List.cons.inj (hz.symm.trans hrest)
    rw [hadvance] at h
    obtain ⟨e, s₁, hexpr, h⟩ := bind_eq_ok h
    obtain ⟨rfl, rfl⟩ := EStateM.Result.ok.inj h
    obtain ⟨k, w, after', hw, hrendering, hbinary, hfollows, rfl⟩ := parseBinaryExpr_eq_ok hexpr
    refine ⟨some e, k, z :: w, after', ?_, .some ht hrendering hbinary hfollows, rfl, rfl⟩
    rw [List.cons_append, ← hw, rest_next hrest hne]
  · rw [if_neg ht] at h
    obtain ⟨rfl, rfl⟩ := EStateM.Result.ok.inj h
    exact ⟨none, 0, [], after, rfl, .none (notNext_of_behind hs hrest ht), rfl, rfl⟩

/-- **The `WHERE` of an `UPDATE` or a `DELETE` has been read.** -/
theorem parseWhere_eq_ok (hs : Behind s after) (h : parseWhere fuel s = .ok where_ s') :
    ∃ k w after', after = w ++ after' ∧ WhereReads where_ k w after' ∧ s' = skip w s := by
  obtain ⟨t, ts, hrest⟩ := hs.exists_cons
  rw [parseWhere, ifMatches_bind hrest] at h
  by_cases ht : t.detail = .keyword .where_
  · obtain rfl := hs.eq_cons hrest ht noOperand_where
    rw [if_pos ht, advance_bind] at h
    obtain ⟨e, s₁, hexpr, h⟩ := bind_eq_ok h
    obtain ⟨rfl, rfl⟩ := EStateM.Result.ok.inj h
    obtain ⟨k, w, after', hw, hrendering, hbinary, hfollows, rfl⟩ := parseBinaryExpr_eq_ok hexpr
    cases ts with
    | nil =>
      -- no expression is read from the keyword itself
      rw [next_of_single hrest] at hw
      exact absurd ht (noOperand_where t _ (operand_of_rest hrendering hw hrest))
    | cons x xs =>
      refine ⟨k, t :: w, after', ?_, .some ht hrendering hbinary hfollows, rfl⟩
      rw [List.cons_append, ← hw, rest_next hrest (List.cons_ne_nil _ _)]
  · rw [if_neg ht] at h
    obtain ⟨rfl, rfl⟩ := EStateM.Result.ok.inj h
    exact ⟨0, [], after, rfl, .none (notNext_of_behind hs hrest ht), rfl⟩

/-- The loop over the assignments goes on behind an expression. -/
theorem parseAssignments_shape (h : ¬ Threw (parseAssignments (fuel + 1) s)) :
    ∃ t after, s.rest = t :: after ∧ after ≠ [] ∧ parseAssignments (fuel + 1) s
      = (parseBinaryExpr fuel 0 >>= fun e => parseMoreAssignments e fuel) s.next := by
  have hadvance := h
  rw [parseAssignments] at hadvance
  obtain ⟨t, after, hrest, hne, heq⟩ := advanceOrThrow_shape hadvance
  refine ⟨t, after, hrest, hne, ?_⟩
  rw [parseAssignments]
  exact heq

/-- It goes on with assignments only. -/
theorem parseMoreAssignments_shape {t : SqlToken} {ts : List SqlToken} (hrest : s.rest = t :: ts)
    (h : ¬ Threw (parseMoreAssignments e fuel s)) :
    IsAssignment e ∧ parseMoreAssignments e fuel s
      = if t.detail = .symbol .comma then
          (parseAssignments fuel >>= fun es => pure (e :: es)) s
        else .ok [e] s := by
  by_cases he : IsAssignment e
  · obtain ⟨l, r, rfl⟩ := he
    refine ⟨⟨l, r, rfl⟩, ?_⟩
    show (matches_ (.symbol .comma) >>= _) s = _
    rw [ifMatches_bind hrest]
    rfl
  · have hthrows : parseMoreAssignments e fuel s
        = .error (.threw (.runtimeError "Expected assignment expression (col = value)")) s := by
      unfold parseMoreAssignments
      split
      · exact absurd ⟨_, _, rfl⟩ he
      · rfl
    exact absurd ⟨_, _, hthrows⟩ h

/-- **The assignments have been read.** -/
theorem parseAssignments_eq_ok : ∀ {fuel s es s'}, parseAssignments fuel s = .ok es s' →
    ∃ t k w after, s.rest = t :: (w ++ after) ∧ AssignmentsRead es k w after
      ∧ s' = skip (t :: w) s := by
  intro fuel
  induction fuel with
  | zero =>
    intro s es s' h
    rw [parseAssignments] at h
    cases h
  | succ fuel ih =>
    intro s es s' h
    obtain ⟨t, after, hrest, hne, heq⟩ := parseAssignments_shape (not_threw_ok h)
    rw [heq] at h
    obtain ⟨e, s₁, hexpr, h⟩ := bind_eq_ok h
    obtain ⟨k, w, after', hw, hrendering, hbinary, hfollows, rfl⟩ := parseBinaryExpr_eq_ok hexpr
    rw [rest_next hrest hne] at hw
    subst hw
    have hbehind := hrendering.behind (rest_next hrest hne)
    obtain ⟨x, xs, hx⟩ := hbehind.exists_cons
    obtain ⟨hassign, heq⟩ := parseMoreAssignments_shape hx (not_threw_ok h)
    rw [heq] at h
    by_cases hcomma : x.detail = .symbol .comma
    · obtain rfl := hbehind.eq_cons hx hcomma (noOperand_symbol _)
      rw [if_pos hcomma] at h
      obtain ⟨es', s₂, hrun, h⟩ := bind_eq_ok h
      obtain ⟨rfl, rfl⟩ := EStateM.Result.ok.inj h
      obtain ⟨c, k', ws, after'', hc, hread, rfl⟩ := ih hrun
      obtain ⟨rfl, rfl⟩ := List.cons.inj (hx.symm.trans hc)
      -- a comma does not close a parenthesis
      cases k with
      | succ k =>
        obtain ⟨rp, ts, hrp, hdetail⟩ := hfollows
        obtain ⟨rfl, -⟩ := List.cons.inj hrp
        rw [hcomma] at hdetail
        cases hdetail
      | zero =>
        refine ⟨t, k', w ++ x :: ws, after'', ?_, .cons hrendering hassign hcomma hread, ?_⟩
        · rw [hrest, List.append_assoc, List.cons_append]
        · rw [skip_cons, skip_cons, skip_append]
          rfl
    · rw [if_neg hcomma] at h
      obtain ⟨rfl, rfl⟩ := EStateM.Result.ok.inj h
      exact ⟨t, k, w, after', hrest,
        .single hrendering hassign hfollows (notNext_of_behind hbehind hx hcomma), rfl⟩

end Conditions

/-! ## Statements -/

section Statements

variable {fuel : ℕ} {t : SqlToken} {ts : List SqlToken}

theorem map_eq_ok {x : Parse α} {g : α → β} {b : β} (h : (g <$> x) s = .ok b s') :
    ∃ a, x s = .ok a s' ∧ b = g a := by
  rw [map_eq_pure_bind] at h
  obtain ⟨a, s₁, hx, h⟩ := bind_eq_ok h
  obtain ⟨rfl, rfl⟩ := EStateM.Result.ok.inj h
  exact ⟨a, hx, rfl⟩

/-- The next token has a detail. -/
theorem expect_shape {m' : String} {d : SqlTokenDetail} (hrest : s.rest = t :: ts)
    (h : ¬ Threw ((advanceOrThrow m >>= fun _ => matchOrThrow d m' >>= f) s)) :
    ∃ x xs, ts = x :: xs ∧ x.detail = d ∧ s.next.rest = x :: xs
      ∧ (advanceOrThrow m >>= fun _ => matchOrThrow d m' >>= f) s = f () s.next := by
  obtain ⟨z, after, hz, hne, heq⟩ := advanceOrThrow_shape h
  obtain ⟨rfl, rfl⟩ := List.cons.inj (hz.symm.trans hrest)
  rw [heq] at h ⊢
  obtain ⟨x, xs, hx, hd, heq⟩ := matchOrThrow_shape h
  exact ⟨x, xs, (rest_next hz hne).symm.trans hx, hd, hx, heq⟩

/-- The next token has a type. -/
theorem expectType_shape {m' : String} {d : SqlTokenType} (hrest : s.rest = t :: ts)
    (h : ¬ Threw ((advanceOrThrow m >>= fun _ => matchTypeOrThrow d m' >>= f) s)) :
    ∃ x xs, ts = x :: xs ∧ x.type = d ∧ s.next.rest = x :: xs
      ∧ (advanceOrThrow m >>= fun _ => matchTypeOrThrow d m' >>= f) s = f () s.next := by
  obtain ⟨z, after, hz, hne, heq⟩ := advanceOrThrow_shape h
  obtain ⟨rfl, rfl⟩ := List.cons.inj (hz.symm.trans hrest)
  rw [heq] at h ⊢
  obtain ⟨x, xs, hx, hd, heq⟩ := matchTypeOrThrow_shape h
  exact ⟨x, xs, (rest_next hz hne).symm.trans hx, hd, hx, heq⟩

/-- The next tokens are a table. -/
theorem expectTable_shape {f : TableIdentifier → Parse β} (hrest : s.rest = t :: ts)
    (h : ¬ Threw ((advanceOrThrow m >>= fun _ => parseTableIdentifier >>= f) s)) :
    ∃ table tw after, ts = tw ++ after ∧ TableTokens table tw ∧ TableEnds table after
      ∧ Behind (skip tw s.next) after
      ∧ (advanceOrThrow m >>= fun _ => parseTableIdentifier >>= f) s
        = f table (skip tw s.next) := by
  obtain ⟨z, after, hz, hne, heq⟩ := advanceOrThrow_shape h
  obtain ⟨rfl, rfl⟩ := List.cons.inj (hz.symm.trans hrest)
  rw [heq] at h ⊢
  obtain ⟨table, tw, after', htw, htable, hend, heq⟩ := parseTableIdentifier_bind h
  exact ⟨table, tw, after', (rest_next hz hne).symm.trans htw, htable, hend, htable.behind htw, heq⟩

/-- Behind a table there is a token that is no operand. -/
theorem matchBehind_shape {d : SqlTokenDetail} {after : List SqlToken} (hs : Behind s after)
    (hd : NoOperand d) (h : ¬ Threw ((matchOrThrow d m >>= f) s)) :
    ∃ x xs, after = x :: xs ∧ x.detail = d ∧ s.rest = x :: xs
      ∧ (matchOrThrow d m >>= f) s = f () s := by
  obtain ⟨x, xs, hx, hdetail, heq⟩ := matchOrThrow_shape h
  exact ⟨x, xs, hs.eq_cons hx hdetail hd, hdetail, hx, heq⟩

/-- **A `SELECT` up to its table.** -/
theorem parseSelect_shape (hrest : s.rest = t :: ts) (ht : t.detail = .keyword .select)
    (h : ¬ Threw (parseSelect fuel s)) :
    Starved s.rest.length fuel (parseSelect fuel s)
      ∨ ∃ columns surplus cw f table tw after, SelectList columns surplus cw
        ∧ f.detail = .keyword .from_ ∧ TableTokens table tw ∧ TableEnds table after
        ∧ s.rest = t :: (cw ++ f :: (tw ++ after))
        ∧ parseSelect fuel s
          = parseSelectWhere table columns fuel (skip (t :: (cw ++ f :: tw)) s) := by
  have hmul : t.detail ≠ .operator .mul := by
    rw [ht]
    exact SqlTokenDetail.noConfusion
  -- the method without its case distinction on `*`
  have hlist : parseSelect fuel s = (parseSelectColumns fuel >>= fun columns =>
      advanceOrThrow >>= fun _ => matchOrThrow (.keyword .from_) "Expected 'FROM'" >>= fun _ =>
        advanceOrThrow >>= fun _ => parseTableIdentifier >>= fun table =>
          parseSelectWhere table columns fuel) s := by
    have hcolumns : (matches_ (.operator .mul) >>= fun b =>
        if b = true then advance >>= fun _ => pure [] else parseSelectColumns fuel) s
          = parseSelectColumns fuel s := by
      rw [ifMatches_bind hrest, if_neg hmul]
    exact bind_congr hcolumns
  rw [hlist] at h ⊢
  rcases parseSelectColumns_shape h with hstarved
    | ⟨z, columns, surplus, cw, rest, hselect, hz, hrest', heq⟩
  · exact Or.inl hstarved
  obtain ⟨rfl, -⟩ := List.cons.inj (hz.symm.trans hrest)
  rw [heq] at h ⊢
  have hat : (skip (z :: cw) s).rest = rest := rest_skip (w := z :: cw) hz hrest'
  obtain ⟨f, after, hf, hfrom, heq⟩ := matchOrThrow_shape h
  obtain rfl := hat.symm.trans hf
  rw [heq] at h ⊢
  obtain ⟨table, tw, after', rfl, htable, hend, -, heq⟩ := expectTable_shape hf h
  refine Or.inr ⟨columns, surplus, cw, f, table, tw, after', hselect, hfrom, htable, hend, hz, ?_⟩
  rw [heq, skip_cons, skip_cons, skip_append]
  rfl

/-- **An `INSERT` has been read.** -/
theorem parseInsert_shape (hrest : s.rest = t :: ts) (h : ¬ Threw (parseInsert fuel s)) :
    Starved s.rest.length fuel (parseInsert fuel s)
      ∨ ∃ n table tw lp columns surplus cw rp v lp' values vw after,
        n.detail = .keyword .into ∧ TableTokens table tw ∧ lp.detail = .symbol .lparen
        ∧ InsertList columns surplus cw ∧ rp.detail = .symbol .rparen
        ∧ v.detail = .keyword .values ∧ lp'.detail = .symbol .lparen
        ∧ Commas (Itself IsLiteral) values vw ∧ Closes after
        ∧ s.rest = t :: n :: (tw ++ lp :: (cw ++ rp :: v :: lp' :: (vw ++ after)))
        ∧ parseInsert fuel s = .ok { table, columns, values := [values] }
            (skip (t :: n :: (tw ++ lp :: (cw ++ rp :: v :: lp' :: vw))) s) := by
  unfold parseInsert at h ⊢
  obtain ⟨n, after, rfl, hn, hinto, heq⟩ := expect_shape hrest h
  rw [heq] at h ⊢
  obtain ⟨table, tw, after, rfl, htable, hend, hbehind, heq⟩ := expectTable_shape hinto h
  rw [heq] at h ⊢
  obtain ⟨lp, after, rfl, hlp, hlparen, heq⟩ :=
    matchBehind_shape hbehind (noOperand_symbol _) h
  rw [heq] at h ⊢
  have hmul : lp.detail ≠ .operator .mul := by
    rw [hlp]
    exact SqlTokenDetail.noConfusion
  -- the method without its case distinction on `*`
  have hcolumns : (matches_ (.operator .mul) >>= fun b =>
      if b = true then advanceOrThrow >>= fun _ => pure [] else parseInsertColumns fuel)
        (skip tw s.next.next) = parseInsertColumns fuel (skip tw s.next.next) := by
    rw [ifMatches_bind hlparen, if_neg hmul]
  rw [bind_congr hcolumns] at h ⊢
  rcases parseInsertColumns_shape h with
    hstarved | ⟨z, columns, surplus, cw, after', hlist, hz, hclose, heq⟩
  · refine Or.inl (hstarved.mono ?_)
    rw [hlparen, hrest]
    simp only [List.length_cons, List.length_append]
    omega
  obtain ⟨rfl, rfl⟩ := List.cons.inj (hz.symm.trans hlparen)
  rw [heq] at h ⊢
  obtain ⟨rp, after, rfl, hrp⟩ := hclose
  have hrparen : (skip (z :: cw) (skip tw s.next.next)).rest = rp :: after :=
    rest_skip (w := z :: cw) hz (List.cons_ne_nil _ _)
  obtain ⟨v, after, rfl, hv, hvalues, heq⟩ := expect_shape hrparen h
  rw [heq] at h ⊢
  obtain ⟨lp', after, rfl, hlp', hlparen', heq⟩ := expect_shape hvalues h
  rw [heq] at h ⊢
  rcases parseInsertValues_shape h with hstarved | ⟨y, values, vw, after', hw, hy, hclose, heq⟩
  · refine Or.inl (hstarved.mono ?_)
    rw [hlparen', hrest]
    simp only [List.length_cons, List.length_append]
    omega
  obtain ⟨rfl, rfl⟩ := List.cons.inj (hy.symm.trans hlparen')
  refine Or.inr ⟨n, table, tw, z, columns, surplus, cw, rp, v, y, values, vw, after', hn, htable,
    hlp, hlist, hrp, hv, hlp', hw, hclose, hrest, ?_⟩
  rw [heq]
  simp only [skip_append, skip_cons]
  rfl

theorem noOperand_set : NoOperand (.keyword .set) := by
  intro t e h
  cases h with
  | identifier hd => simp [hd]
  | literal hd => simp [hd]
  | null hd => simp [hd]

/-- **An `UPDATE` up to its assignments.** -/
theorem parseUpdate_shape (hrest : s.rest = t :: ts) (h : ¬ Threw (parseUpdate fuel s)) :
    ∃ table tw u after, TableTokens table tw ∧ u.detail = .keyword .set
      ∧ ts = tw ++ u :: after ∧ (skip (t :: tw) s).rest = u :: after
      ∧ parseUpdate fuel s = (parseAssignments fuel >>= fun assignments =>
          parseWhere fuel >>= fun where_ => pure { table, assignments, where_ })
            (skip (t :: tw) s) := by
  unfold parseUpdate at h ⊢
  obtain ⟨table, tw, after, rfl, htable, hend, hbehind, heq⟩ := expectTable_shape hrest h
  rw [heq] at h ⊢
  obtain ⟨u, us, rfl, hset, hu, heq⟩ := matchBehind_shape hbehind noOperand_set h
  exact ⟨table, tw, u, us, htable, hset, rfl, hu, heq⟩

/-- **A `DELETE` up to its table.** -/
theorem parseDelete_shape (hrest : s.rest = t :: ts) (h : ¬ Threw (parseDelete fuel s)) :
    ∃ f table tw after, f.detail = .keyword .from_ ∧ TableTokens table tw ∧ TableEnds table after
      ∧ ts = f :: (tw ++ after) ∧ Behind (skip (t :: f :: tw) s) after
      ∧ parseDelete fuel s
        = (parseWhere fuel >>= fun where_ => pure { table, where_ }) (skip (t :: f :: tw) s) := by
  unfold parseDelete at h ⊢
  obtain ⟨f, after, rfl, hfrom, hf, heq⟩ := expect_shape hrest h
  rw [heq] at h ⊢
  obtain ⟨table, tw, after, rfl, htable, hend, hbehind, heq⟩ := expectTable_shape hf h
  exact ⟨f, table, tw, after, hfrom, htable, hend, rfl, hbehind, heq⟩

/-- **An index has been read**, from the keyword `INDEX` on. -/
theorem parseIndexDefinition_shape {isUnique : Option Bool}
    (h : ¬ Threw (parseIndexDefinition isUnique s)) :
    ∃ i name o table tw lp column after, i.detail = .keyword .index ∧ IsIdentifier name
      ∧ o.detail = .keyword .on_ ∧ TableTokens table tw ∧ lp.detail = .symbol .lparen
      ∧ IsIdentifier column ∧ Closes after
      ∧ s.rest = i :: name :: o :: (tw ++ lp :: column :: after)
      ∧ parseIndexDefinition isUnique s
        = .ok { table, indexName := name, columnName := column, isUnique }
            (skip (i :: name :: o :: (tw ++ [lp, column])) s) := by
  have h' := h
  unfold parseIndexDefinition at h'
  obtain ⟨i, after, hrest, hi, heq⟩ := matchOrThrow_shape h'
  rw [heq] at h'
  obtain ⟨name, after, rfl, hname, hname', heq⟩ := expectType_shape hrest h'
  rw [heq, current_bind hname'] at h'
  obtain ⟨o, after, rfl, ho, ho', heq⟩ := expect_shape hname' h'
  rw [heq] at h'
  obtain ⟨table, tw, after, rfl, htable, hend, hbehind, heq⟩ := expectTable_shape ho' h'
  rw [heq] at h'
  obtain ⟨lp, after, rfl, hlp, hlp', heq⟩ := matchBehind_shape hbehind (noOperand_symbol _) h'
  rw [heq] at h'
  obtain ⟨column, after, rfl, hcolumn, hcolumn', heq⟩ := expectType_shape hlp' h'
  rw [heq, current_bind hcolumn'] at h'
  obtain ⟨rp, after, rfl, hrp, -, -⟩ := expect_shape hcolumn' h'
  have hclose : Closes (rp :: after) := ⟨rp, after, rfl, hrp⟩
  have hid := identifier_of_type hname
  have hid' := identifier_of_type hcolumn
  exact ⟨i, name, o, table, tw, lp, column, rp :: after, hi, hid, ho, htable, hlp, hid', hclose,
    hrest, parseIndexDefinition_tokens hi hid ho htable hlp hid' hclose hrest⟩

/-- **A `DROP INDEX` has been read**, from the keyword `INDEX` on. -/
theorem parseDropIndex_shape (h : ¬ Threw (parseDropIndex s)) :
    ∃ i name o table tw after, i.detail = .keyword .index ∧ IsIdentifier name
      ∧ o.detail = .keyword .on_ ∧ TableTokens table tw ∧ TableEnds table after
      ∧ s.rest = i :: name :: o :: (tw ++ after)
      ∧ parseDropIndex s = .ok { table, indexName := name } (skip (i :: name :: o :: tw) s) := by
  have h' := h
  unfold parseDropIndex at h'
  obtain ⟨i, after, hrest, hi, heq⟩ := matchOrThrow_shape h'
  rw [heq] at h'
  obtain ⟨name, after, rfl, hname, hname', heq⟩ := expectType_shape hrest h'
  rw [heq, current_bind hname'] at h'
  obtain ⟨o, after, rfl, ho, ho', heq⟩ := expect_shape hname' h'
  rw [heq] at h'
  obtain ⟨table, tw, after, rfl, htable, hend, hbehind, heq⟩ := expectTable_shape ho' h'
  have hid := identifier_of_type hname
  exact ⟨i, name, o, table, tw, after, hi, hid, ho, htable, hend, hrest,
    parseDropIndex_tokens hi hid ho htable hend hrest⟩

/-- `CREATE` and `DROP` are followed by another keyword. -/
theorem advanceOrInvalid_shape (h : ¬ Threw ((advanceOrInvalid >>= f) s)) :
    ∃ t x xs, s.rest = t :: x :: xs := by
  have hthrows : ¬ 1 < s.rest.length →
      advanceOrInvalid s = .error invalidStatementSyntax s.next := fun hlength => by
    rw [advanceOrInvalid, advance_bind, decide_eq_false hlength]
    rfl
  cases hrest : s.rest with
  | nil => exact absurd ⟨_, _, bind_error (hthrows (by simp [hrest]))⟩ h
  | cons t ts =>
    cases ts with
    | nil => exact absurd ⟨_, _, bind_error (hthrows (by simp [hrest]))⟩ h
    | cons x xs => exact ⟨t, x, xs, rfl⟩

/-- The statements that are read from tokens of the grammar. -/
inductive Covered : Statement → Prop
  | select (stmt : SelectStatement) : Covered (.select stmt)
  | insert (stmt : InsertStatement) : Covered (.insert stmt)
  | update (stmt : UpdateStatement) : Covered (.update stmt)
  | delete (stmt : DeleteStatement) : Covered (.delete stmt)
  | createIndex (stmt : CreateIndexStatement) : Covered (.createIndex stmt)
  | dropIndex (stmt : DropIndexStatement) : Covered (.dropIndex stmt)

/-- What has been read up to a state of the parser. -/
def ReadUpTo (s : SqlParser) (stmt : Statement) (s' : SqlParser) : Prop :=
  ∃ k surplus w after, s.rest = w ++ after ∧ Reads stmt k surplus w after ∧ s' = skip w s

theorem parseSelect_eq_ok {stmt : SelectStatement} (hrest : s.rest = t :: ts)
    (ht : t.detail = .keyword .select) (h : parseSelect fuel s = .ok stmt s') :
    ReadUpTo s (.select stmt) s' := by
  rcases parseSelect_shape hrest ht (not_threw_ok h) with ⟨-, s₁, hstarved⟩ |
    ⟨columns, surplus, cw, f, table, tw, after, hselect, hfrom, htable, hend, hall, heq⟩
  · rw [hstarved] at h
    cases h
  rw [heq] at h
  obtain ⟨hbehind, -⟩ := parseSelect_tokens ht hselect hfrom htable hend hall
  obtain ⟨where_, k, ww, after', rfl, hw, rfl, rfl⟩ := parseSelectWhere_eq_ok hbehind h
  refine ⟨k, surplus, t :: (cw ++ f :: (tw ++ ww)), after', ?_,
    .select ht hselect hfrom htable hend hw, ?_⟩
  · rw [hall]
    simp
  · rw [← skip_append]
    simp

theorem parseInsert_eq_ok {stmt : InsertStatement} (hrest : s.rest = t :: ts)
    (ht : t.detail = .keyword .insert) (h : parseInsert fuel s = .ok stmt s') :
    ReadUpTo s (.insert stmt) s' := by
  rcases parseInsert_shape hrest (not_threw_ok h) with ⟨-, s₁, hstarved⟩ |
    ⟨n, table, tw, lp, columns, surplus, cw, rp, v, lp', values, vw, after, hn, htable, hlp, hlist,
      hrp, hv, hlp', hw, hclose, hall, heq⟩
  · rw [hstarved] at h
    cases h
  rw [heq] at h
  obtain ⟨rfl, rfl⟩ := EStateM.Result.ok.inj h
  refine ⟨1, surplus, _, after, ?_, .insert ht hn htable hlp hlist hrp hv hlp' hw hclose, rfl⟩
  rw [hall]
  simp

theorem parseUpdate_eq_ok {stmt : UpdateStatement} (hrest : s.rest = t :: ts)
    (ht : t.detail = .keyword .update) (h : parseUpdate fuel s = .ok stmt s') :
    ReadUpTo s (.update stmt) s' := by
  obtain ⟨table, tw, u, after, htable, hset, rfl, hu, heq⟩ :=
    parseUpdate_shape hrest (not_threw_ok h)
  rw [heq] at h
  obtain ⟨es, s₁, hassign, h⟩ := bind_eq_ok h
  obtain ⟨z, k, aw, after', hz, hread, rfl⟩ := parseAssignments_eq_ok hassign
  obtain ⟨rfl, rfl⟩ := List.cons.inj (hz.symm.trans hu)
  obtain ⟨where_, s₂, hwhere, h⟩ := bind_eq_ok h
  obtain ⟨rfl, rfl⟩ := EStateM.Result.ok.inj h
  obtain ⟨k', ww, after'', rfl, hw, rfl⟩ := parseWhere_eq_ok (hread.behind hz) hwhere
  refine ⟨k + k', [], t :: (tw ++ z :: (aw ++ ww)), after'', ?_,
    .update ht htable hset hread hw, ?_⟩
  · rw [hrest]
    simp
  · rw [← skip_append, ← skip_append]
    simp

theorem parseDelete_eq_ok {stmt : DeleteStatement} (hrest : s.rest = t :: ts)
    (ht : t.detail = .keyword .delete) (h : parseDelete fuel s = .ok stmt s') :
    ReadUpTo s (.delete stmt) s' := by
  obtain ⟨f, table, tw, after, hfrom, htable, hend, rfl, hbehind, heq⟩ :=
    parseDelete_shape hrest (not_threw_ok h)
  rw [heq] at h
  obtain ⟨where_, s₁, hwhere, h⟩ := bind_eq_ok h
  obtain ⟨rfl, rfl⟩ := EStateM.Result.ok.inj h
  obtain ⟨k, ww, after', rfl, hw, rfl⟩ := parseWhere_eq_ok hbehind hwhere
  refine ⟨k, [], t :: f :: (tw ++ ww), after', ?_, .delete ht hfrom htable hend hw, ?_⟩
  · rw [hrest]
    simp
  · rw [← skip_append]
    simp

theorem parseCreate_eq_ok {stmt : Statement} (hrest : s.rest = t :: ts)
    (ht : t.detail = .keyword .create) (hcovered : Covered stmt)
    (h : parseCreate fuel s = .ok stmt s') : ReadUpTo s stmt s' := by
  have hadvance := not_threw_ok h
  unfold parseCreate at hadvance
  obtain ⟨z, x, xs, hz⟩ := advanceOrInvalid_shape hadvance
  obtain ⟨rfl, rfl⟩ := List.cons.inj (hz.symm.trans hrest)
  have hnext : s.next.rest = x :: xs := rest_next hz (List.cons_ne_nil _ _)
  rw [parseCreate_eq hz] at h
  split_ifs at h with htable hdatabase hschema hindex
  · obtain ⟨stmt, -, rfl⟩ := map_eq_ok h
    cases hcovered
  · obtain ⟨stmt, -, rfl⟩ := map_eq_ok h
    cases hcovered
  · obtain ⟨stmt, -, rfl⟩ := map_eq_ok h
    cases hcovered
  · obtain ⟨stmt, hstmt, rfl⟩ := map_eq_ok h
    rw [parseCreateIndex, ifMatches_bind hnext] at hstmt
    by_cases hunique : x.detail = .keyword .unique
    · rw [if_pos hunique] at hstmt
      obtain ⟨y, after, hy, hne, heq⟩ := advanceOrThrow_shape (not_threw_ok hstmt)
      obtain ⟨rfl, rfl⟩ := List.cons.inj (hy.symm.trans hnext)
      rw [heq] at hstmt
      obtain ⟨i, name, o, table, tw, lp, column, after, hi, hname, ho, htable, hlp, hcolumn,
        hclose, hall, heq⟩ := parseIndexDefinition_shape (not_threw_ok hstmt)
      rw [heq] at hstmt
      obtain ⟨rfl, rfl⟩ := EStateM.Result.ok.inj hstmt
      obtain rfl := (rest_next hy hne).symm.trans hall
      refine ⟨1, [], _, after, ?_,
        .createUniqueIndex ht hunique hi hname ho htable hlp hcolumn hclose, rfl⟩
      rw [hz]
      simp
    · rw [if_neg hunique] at hstmt
      obtain ⟨i, name, o, table, tw, lp, column, after, hi, hname, ho, htable, hlp, hcolumn,
        hclose, hall, heq⟩ := parseIndexDefinition_shape (not_threw_ok hstmt)
      rw [heq] at hstmt
      obtain ⟨rfl, rfl⟩ := EStateM.Result.ok.inj hstmt
      obtain ⟨rfl, rfl⟩ := List.cons.inj (hnext.symm.trans hall)
      refine ⟨1, [], _, after, ?_, .createIndex ht hi hname ho htable hlp hcolumn hclose, rfl⟩
      rw [hz]
      simp

theorem parseDrop_eq_ok {stmt : Statement} (hrest : s.rest = t :: ts)
    (ht : t.detail = .keyword .drop) (h : parseDrop s = .ok stmt s') : ReadUpTo s stmt s' := by
  have hadvance := not_threw_ok h
  unfold parseDrop at hadvance
  obtain ⟨z, x, xs, hz⟩ := advanceOrInvalid_shape hadvance
  obtain ⟨rfl, rfl⟩ := List.cons.inj (hz.symm.trans hrest)
  have hnext : s.next.rest = x :: xs := rest_next hz (List.cons_ne_nil _ _)
  rw [parseDrop_eq hz] at h
  split_ifs at h with hindex
  · obtain ⟨stmt, hstmt, rfl⟩ := map_eq_ok h
    obtain ⟨i, name, o, table, tw, after, hi, hname, ho, htable, hend, hall, heq⟩ :=
      parseDropIndex_shape (not_threw_ok hstmt)
    rw [heq] at hstmt
    obtain ⟨rfl, rfl⟩ := EStateM.Result.ok.inj hstmt
    obtain ⟨rfl, rfl⟩ := List.cons.inj (hnext.symm.trans hall)
    refine ⟨0, [], _, after, ?_, .dropIndex ht hi hname ho htable hend, rfl⟩
    rw [hz]
    simp

/-- Where there is no token there is no statement. -/
theorem parseStatement_nil (h : s.rest = []) :
    parseStatement fuel s = .error unsupportedStatement s := by
  have hat : ∀ (d : SqlTokenDetail) (x y : Parse Statement),
      (matches_ d >>= fun b => if b = true then x else y) s = y s := fun d x y => by
    have hd : matches_ d s = .ok false s := isAt_nil h _
    rw [bind_ok hd]
    rfl
  unfold parseStatement
  rw [hat, hat, hat, hat, hat, hat, hat]
  rfl

/-- **A statement that has been returned has been read.** -/
theorem parseStatement_eq_ok {stmt : Statement} (hcovered : Covered stmt)
    (h : parseStatement fuel s = .ok stmt s') : ReadUpTo s stmt s' := by
  cases hrest : s.rest with
  | nil =>
    rw [parseStatement_nil hrest] at h
    cases h
  | cons t ts =>
    rw [parseStatement_eq hrest] at h
    split_ifs at h with hselect hinsert hupdate hdelete hcreate hdrop halter
    · obtain ⟨stmt, hstmt, rfl⟩ := map_eq_ok h
      exact parseSelect_eq_ok hrest hselect hstmt
    · obtain ⟨stmt, hstmt, rfl⟩ := map_eq_ok h
      exact parseInsert_eq_ok hrest hinsert hstmt
    · obtain ⟨stmt, hstmt, rfl⟩ := map_eq_ok h
      exact parseUpdate_eq_ok hrest hupdate hstmt
    · obtain ⟨stmt, hstmt, rfl⟩ := map_eq_ok h
      exact parseDelete_eq_ok hrest hdelete hstmt
    · exact parseCreate_eq_ok hrest hcreate hcovered h
    · exact parseDrop_eq_ok hrest hdrop h
    · have hadvance := not_threw_ok h
      unfold parseAlter at hadvance h
      obtain ⟨z, x, xs, hz⟩ := advanceOrInvalid_shape hadvance
      have hnext : s.next.rest = x :: xs := rest_next hz (List.cons_ne_nil _ _)
      rw [advanceOrInvalid_bind hz (List.cons_ne_nil _ _), ifMatches_bind hnext] at h
      split_ifs at h
      · obtain ⟨stmt, -, rfl⟩ := map_eq_ok h
        cases hcovered
      · cases h

/-! ## Inputs -/

theorem WhereReads.closes {where_ : Option ExprNode} {k : ℕ} {w after : List SqlToken}
    (h : WhereReads where_ (k + 1) w after) : Closes after := by
  cases h with
  | some _ _ _ hf => exact hf

theorem AssignmentsRead.closes {es : List ExprNode} {k : ℕ} {w after : List SqlToken}
    (h : AssignmentsRead es (k + 1) w after) : Closes after := by
  generalize hk : k + 1 = n at h
  induction h with
  | single _ _ hf _ =>
    subst hk
    exact hf
  | cons _ _ _ _ ih => exact ih hk

/-- No `WHERE` is read in front of a right parenthesis. -/
theorem WhereReads.eq_none {where_ : Option ExprNode} {k : ℕ} {w after : List SqlToken}
    (h : WhereReads where_ k w after) (hclose : Closes (w ++ after)) :
    where_ = Option.none ∧ k = 0 ∧ w = [] := by
  cases h with
  | none _ => exact ⟨rfl, rfl, rfl⟩
  | some ht _ _ _ =>
    obtain ⟨rp, ts, hrp, hdetail⟩ := hclose
    obtain ⟨rfl, -⟩ := List.cons.inj hrp
    rw [ht] at hdetail
    cases hdetail

/-- What is behind a parenthesis that is still open. -/
theorem Reads.closes {stmt : Statement} {k : ℕ} {surplus w after : List SqlToken}
    (h : Reads stmt (k + 1) surplus w after) : Closes after := by
  generalize hn : k + 1 = n at h
  cases h with
  | select _ _ _ _ _ hw =>
    subst hn
    exact hw.closes
  | insert _ _ _ _ _ _ _ _ _ hclose => exact hclose
  | @update _ _ _ k₁ k₂ _ _ _ _ _ _ _ _ _ ha hw =>
    cases k₁ with
    | zero =>
      obtain rfl : k + 1 = k₂ := hn.trans (Nat.zero_add k₂)
      exact hw.closes
    | succ k₁ =>
      obtain ⟨-, -, rfl⟩ := hw.eq_none ha.closes
      exact ha.closes
  | delete _ _ _ _ hw =>
    subst hn
    exact hw.closes
  | createIndex _ _ _ _ _ _ _ hclose => exact hclose
  | createUniqueIndex _ _ _ _ _ _ _ _ hclose => exact hclose
  | dropIndex _ _ _ _ _ _ => cases hn

/-- What the last check has accepted. -/
theorem endsAt_of_checkTrailing (h : checkTrailing s = .ok () s') : EndsAt s.rest := by
  unfold checkTrailing at h
  split_ifs at h with hvalid
  match hrest : s.rest with
  | [] => exact Or.inl rfl
  | [x] => exact Or.inr (Or.inl ⟨x, rfl⟩)
  | [x, t] =>
    rw [hrest] at hvalid
    have ht : t.detail = .symbol .semicolon := by simpa [isTrailingSequenceValid] using hvalid
    exact Or.inr (Or.inr ⟨x, t, rfl, ht⟩)
  | x :: t :: t' :: ts =>
    rw [hrest] at hvalid
    simp [isTrailingSequenceValid] at hvalid

theorem Reads.trailing {stmt : Statement} {k : ℕ} {surplus w after : List SqlToken}
    (hreads : Reads stmt k surplus w after) (hrest : s.rest = w ++ after)
    (h : EndsAt (skip w s).rest) : ∃ extra, Trailing k extra after := by
  cases after with
  | nil =>
    cases k with
    | zero => exact ⟨[], .nothing⟩
    | succ k =>
      obtain ⟨rp, ts, hrp, -⟩ := hreads.closes
      cases hrp
  | cons x xs =>
    rw [rest_skip hrest (List.cons_ne_nil _ _)] at h
    cases k with
    | zero =>
      rcases h with hnil | ⟨y, hy⟩ | ⟨y, t, hy, ht⟩
      · cases hnil
      · obtain ⟨rfl, rfl⟩ := List.cons.inj hy
        by_cases hx : IsSemicolon x
        · exact ⟨[], .semicolon hx⟩
        · exact ⟨[x], .surplus hx⟩
      · obtain ⟨rfl, rfl⟩ := List.cons.inj hy
        exact ⟨[x], .surplusSemicolon ht⟩
    | succ k =>
      obtain ⟨rp, ts, hrp, hdetail⟩ := hreads.closes
      obtain ⟨rfl, rfl⟩ := List.cons.inj hrp
      rcases h with hnil | ⟨y, hy⟩ | ⟨y, t, hy, ht⟩
      · cases hnil
      · obtain ⟨rfl, rfl⟩ := List.cons.inj hy
        exact ⟨[], .closed hdetail⟩
      · obtain ⟨rfl, rfl⟩ := List.cons.inj hy
        exact ⟨[], .closedSemicolon hdetail ht⟩

theorem Reads.covered {stmt : Statement} {k : ℕ} {surplus w after : List SqlToken}
    (h : Reads stmt k surplus w after) : Covered stmt := by
  cases h with
  | select _ _ _ _ _ _ => exact .select _
  | insert _ _ _ _ _ _ _ _ _ _ => exact .insert _
  | update _ _ _ _ _ => exact .update _
  | delete _ _ _ _ _ => exact .delete _
  | createIndex _ _ _ _ _ _ _ _ => exact .createIndex _
  | createUniqueIndex _ _ _ _ _ _ _ _ _ => exact .createIndex _
  | dropIndex _ _ _ _ _ _ => exact .dropIndex _

theorem Accepts.covered {stmt : Statement} {missing : ℕ} {surplus ts : List SqlToken}
    (h : Accepts stmt missing surplus ts) : Covered stmt := by
  cases h with
  | intro hreads _ => exact hreads.covered

/-- **What the parser returns of its input is in its grammar.** -/
theorem accepts_of_run {stmt : Statement} {ts : List SqlToken} (hcovered : Covered stmt)
    (h : SqlParser.run fuel ts = .ok stmt) :
    ∃ missing surplus, Accepts stmt missing surplus ts := by
  rw [SqlParser.run] at h
  cases hparse : SqlParser.parse fuel { rest := ts } with
  | error e s => simp [hparse] at h
  | ok parsed s =>
    simp only [hparse, Except.ok.injEq] at h
    subst h
    rw [SqlParser.parse] at hparse
    obtain ⟨stmt, s₁, hstmt, hparse⟩ := bind_eq_ok hparse
    obtain ⟨u, s₂, hcheck, hparse⟩ := bind_eq_ok hparse
    obtain ⟨rfl, rfl⟩ := EStateM.Result.ok.inj hparse
    obtain ⟨k, surplus, w, after, hrest, hreads, rfl⟩ := parseStatement_eq_ok hcovered hstmt
    obtain ⟨extra, htrailing⟩ := hreads.trailing hrest (endsAt_of_checkTrailing hcheck)
    obtain rfl : ts = w ++ after := hrest
    exact ⟨_, _, .intro hreads htrailing⟩

end Statements

end Shapes

end Sql
