import Deltabase.Sql.Rendering

/-!
# What the parser reads as an expression

`parse_binary_tree` reads exactly the open renderings: what it returns is the
expression of an open rendering that it has moved over (`parseBinaryTree_sound`),
and it returns the expression of each that is followed by something that does
not go on with it (`parseBinaryTree_complete`).

Behind an expression without parentheses the cursor is on the next token, or on
the last one if there is none. An expression that ends with a parenthesis leaves
the cursor on the parenthesis, and so do all the expressions that it is a part
of: one parenthesis closes them all.
-/

namespace Sql

open Stateful

namespace SqlParser

/-! ## The cursor -/

/-- The parser after `advance`. -/
def next (s : SqlParser) : SqlParser :=
  match s.rest with
  | t :: t' :: ts => { passed := t :: s.passed, rest := t' :: ts }
  | _ => s

/-- The parser after an `advance` for each of some tokens. -/
def skip (w : List SqlToken) (s : SqlParser) : SqlParser := w.foldl (fun s _ => s.next) s

variable {α β : Type} {s : SqlParser} {t : SqlToken} {ts w after : List SqlToken}

@[simp] theorem skip_nil : skip [] s = s := rfl

@[simp] theorem skip_cons : skip (t :: w) s = skip w s.next := rfl

theorem skip_append (u w : List SqlToken) : skip (u ++ w) s = skip w (skip u s) :=
  List.foldl_append ..

theorem rest_next (h : s.rest = t :: after) (hafter : after ≠ []) : s.next.rest = after := by
  obtain ⟨t', ts, rfl⟩ := List.exists_cons_of_ne_nil hafter
  unfold next
  rw [h]

theorem next_of_single (h : s.rest = [t]) : s.next = s := by
  unfold next
  rw [h]

/-- **Behind some tokens is what follows them**, if anything does. -/
theorem rest_skip (h : s.rest = w ++ after) (hafter : after ≠ []) :
    (skip w s).rest = after := by
  induction w generalizing s with
  | nil => exact h
  | cons t w ih => exact ih (rest_next h (List.append_ne_nil_of_right_ne_nil w hafter))

/-- **At the end the cursor stays on the last token.** -/
theorem rest_skip_last (h : s.rest = w ++ [t]) : (skip (w ++ [t]) s).rest = [t] := by
  have hlast : (skip w s).rest = [t] := rest_skip h (List.cons_ne_nil _ _)
  rw [skip_append, skip_cons, skip_nil, next_of_single hlast, hlast]

/-! ## The steps of the parser -/

theorem advance_bind (f : Bool → Parse β) (s : SqlParser) :
    (advance >>= f) s = f (decide (1 < s.rest.length)) s.next := by
  show EStateM.bind advance f s = _
  unfold EStateM.bind advance next
  match s.rest with
  | [] => rfl
  | [_] => rfl
  | _ :: _ :: _ => rfl

theorem current_bind (h : s.rest = t :: ts) (f : SqlToken → Parse β) :
    (current >>= f) s = f t s := by
  have hcurrent : current s = .ok t s := by
    unfold current
    rw [h]
  exact bind_ok hcurrent

theorem isAt_bind (h : s.rest = t :: ts) (p : SqlToken → Bool) (f : Bool → Parse β) :
    (isAt p >>= f) s = f (p t) s := by
  have hat : isAt p s = .ok (p t) s := by
    unfold isAt
    rw [h, List.head?_cons, Option.any_some]
  exact bind_ok hat

theorem matches_bind (h : s.rest = t :: ts) (d : SqlTokenDetail) (f : Bool → Parse β) :
    (matches_ d >>= f) s = f (t.detail == d) s := isAt_bind h _ f

/-- A case distinction on the token at the cursor. -/
theorem ifMatches_bind (h : s.rest = t :: ts) (d : SqlTokenDetail) (x y : Parse β) :
    (matches_ d >>= fun b => if b = true then x else y) s
      = if t.detail = d then x s else y s := by
  have hat := isAt_bind h (fun t => t.detail == d) fun b => if b = true then x else y
  refine hat.trans ?_
  by_cases hd : t.detail = d
  · rw [if_pos hd, if_pos (beq_iff_eq.mpr hd)]
  · rw [if_neg hd, if_neg (mt beq_iff_eq.mp hd)]

/-- A case distinction on its type. -/
theorem ifMatchesType_bind (h : s.rest = t :: ts) (d : SqlTokenType) (x y : Parse β) :
    (matchesType d >>= fun b => if b = true then x else y) s
      = if t.type = d then x s else y s := by
  have hat := isAt_bind h (fun t => t.type == d) fun b => if b = true then x else y
  refine hat.trans ?_
  by_cases hd : t.type = d
  · rw [if_pos hd, if_pos (beq_iff_eq.mpr hd)]
  · rw [if_neg hd, if_neg (mt beq_iff_eq.mp hd)]

end SqlParser

open SqlParser

/-! ## Operands, parentheses and negations -/

/-- What `parse_primary` does behind a left parenthesis. -/
def parseParenthesized (fuel : ℕ) : Parse ExprNode := do
  let tree ← parseBinaryTree fuel 0
  let node ← toBinaryExpr tree
  if ← matches_ (.symbol .rparen) then pure node
  else throw (.threw (.runtimeError "Expected right parenthesis"))

/-- What `parse_primary` does behind a `NOT`. -/
def parseNegation (fuel : ℕ) : Parse ExprNode := do
  let right ← parsePrimary fuel
  pure (.prefixExpr .not right)

section Primary

variable {fuel : ℕ} {s s' : SqlParser} {t : SqlToken} {ts : List SqlToken} {e : ExprNode}

/-- The cases of `parse_primary`. -/
theorem parsePrimary_eq (h : s.rest = t :: ts) :
    parsePrimary (fuel + 1) s
      = if t.detail = .symbol .lparen then parseParenthesized fuel s.next
        else if t.detail = .operator .not then parseNegation fuel s.next
        else if t.detail = .keyword .null then .ok (.literal t.asNull) s.next
        else if t.type = .literal then .ok (.literal t) s.next
        else if t.type = .identifier then .ok (.identifier t) s.next
        else .error (.threw (.unexpectedToken t)) s := by
  rw [parsePrimary, current_bind h, ifMatches_bind h, ifMatches_bind h, ifMatches_bind h,
    ifMatchesType_bind h,     ifMatchesType_bind h]
  simp only [advance_bind]
  rfl

/-- An operand is read. -/
theorem parsePrimary_operand (h : s.rest = t :: ts) (ht : Operand e t) :
    parsePrimary (fuel + 1) s = .ok e s.next := by
  rw [parsePrimary_eq h]
  cases ht with
  | identifier hd => simp [hd, SqlToken.type]
  | literal hd => simp [hd, SqlToken.type]
  | null hd => simp [hd]

theorem parsePrimary_paren (h : s.rest = t :: ts) (ht : t.detail = .symbol .lparen) :
    parsePrimary (fuel + 1) s = parseParenthesized fuel s.next := by
  rw [parsePrimary_eq h, if_pos ht]

theorem parsePrimary_not (h : s.rest = t :: ts) (ht : t.detail = .operator .not) :
    parsePrimary (fuel + 1) s = parseNegation fuel s.next := by
  have hne : t.detail ≠ .symbol .lparen := by
    rw [ht]
    exact SqlTokenDetail.noConfusion
  rw [parsePrimary_eq h, if_neg hne, if_pos ht]

/-- **The cases of `parse_primary`**: a parenthesis, a negation, an operand, or an
error. -/
theorem parsePrimary_cases (fuel : ℕ) (h : s.rest = t :: ts) :
    t.detail = .symbol .lparen ∨ t.detail = .operator .not ∨ (∃ e, Operand e t)
      ∨ parsePrimary (fuel + 1) s = .error (.threw (.unexpectedToken t)) s := by
  rw [parsePrimary_eq h]
  by_cases hlp : t.detail = .symbol .lparen
  · exact Or.inl hlp
  by_cases hnot : t.detail = .operator .not
  · exact Or.inr (Or.inl hnot)
  by_cases hnull : t.detail = .keyword .null
  · exact Or.inr (Or.inr (Or.inl ⟨_, .null hnull⟩))
  by_cases hlit : t.type = .literal
  · obtain ⟨l, hl⟩ := SqlToken.type_eq_literal.mp hlit
    exact Or.inr (Or.inr (Or.inl ⟨_, .literal hl⟩))
  by_cases hid : t.type = .identifier
  · exact Or.inr (Or.inr (Or.inl ⟨_, .identifier (SqlToken.type_eq_identifier.mp hid)⟩))
  rw [if_neg hlp, if_neg hnot, if_neg hnull, if_neg hlit, if_neg hid]
  exact Or.inr (Or.inr (Or.inr rfl))

end Primary

/-! ## The loop over the operators -/

section Loop

variable {fuel p : ℕ} {s s' : SqlParser} {t : SqlToken} {ts : List SqlToken} {op : AstOperator}
  {left : ExprNode}

/-- The loop ends at a token that is no operator. -/
theorem parseBinaryLoop_none (h : s.rest = t :: ts) (ho : operatorOf t = none) :
    parseBinaryLoop (fuel + 1) p left s = .ok left s := by
  rw [parseBinaryLoop, current_bind h]
  simp only [ho]
  rfl

/-- And at an operator of a lower priority. -/
theorem parseBinaryLoop_lt (h : s.rest = t :: ts) (ho : operatorOf t = some op)
    (hp : priority op < p) : parseBinaryLoop (fuel + 1) p left s = .ok left s := by
  rw [parseBinaryLoop, current_bind h]
  simp only [ho]
  rw [if_pos hp]
  rfl

/-- It goes on with every other. -/
theorem parseBinaryLoop_ge (h : s.rest = t :: ts) (ho : operatorOf t = some op)
    (hp : p ≤ priority op) :
    parseBinaryLoop (fuel + 1) p left s
      = (readIsNot op >>= fun op' => parseBinaryTree fuel (priority op + 1) >>= fun right =>
          parseBinaryLoop fuel p (.binaryExpr op' left right)) s.next := by
  rw [parseBinaryLoop, current_bind h]
  simp only [ho]
  rw [if_neg (Nat.not_lt.mpr hp), advance_bind]

theorem readIsNot_eq (h : s.rest = t :: ts) :
    readIsNot op s
      = if op = .is ∧ t.detail = .keyword .not then .ok .neq s.next else .ok op s := by
  unfold readIsNot
  rw [matches_bind h]
  by_cases hnot : op = .is ∧ t.detail = .keyword .not
  · rw [if_pos hnot, if_pos ⟨hnot.1, beq_iff_eq.mpr hnot.2⟩, advance_bind]
    rfl
  · rw [if_neg hnot, if_neg fun h' => hnot ⟨h'.1, beq_iff_eq.mp h'.2⟩]
    rfl

/-- **The tokens of an operator are read**, unless they are the last. -/
theorem readIsNot_next (h : s.rest = t :: ts) (ho : operatorOf t = some op) :
    (∃ op' o ts', ts' ≠ [] ∧ t :: ts = o ++ ts' ∧ OperatorTokens op op' o
        ∧ readIsNot op s.next = .ok op' (skip o s))
      ∨ ∃ op' x s₁, readIsNot op s.next = .ok op' s₁ ∧ s₁.rest = [x]
        ∧ (x = t ∧ ts = [] ∨ x.detail = .keyword .not) := by
  cases ts with
  | nil =>
    have hnot : ¬ (op = .is ∧ t.detail = .keyword .not) := by
      rintro ⟨-, hd⟩
      rw [operatorOf, hd] at ho
      cases ho
    refine Or.inr ⟨op, t, s, ?_, h, Or.inl ⟨rfl, rfl⟩⟩
    rw [next_of_single h, readIsNot_eq h, if_neg hnot]
  | cons t' ts =>
    have hnext : s.next.rest = t' :: ts := rest_next h (List.cons_ne_nil _ _)
    rw [readIsNot_eq hnext]
    by_cases hnot : op = .is ∧ t'.detail = .keyword .not
    · obtain ⟨rfl, hnot⟩ := hnot
      rw [if_pos ⟨rfl, hnot⟩]
      cases ts with
      | nil =>
        refine Or.inr ⟨_, t', s.next.next, rfl, ?_, Or.inr hnot⟩
        rw [next_of_single hnext, hnext]
      | cons t'' ts =>
        exact Or.inl ⟨_, [t, t'], t'' :: ts, List.cons_ne_nil _ _, rfl, .isNot ho hnot, rfl⟩
    · rw [if_neg hnot]
      exact Or.inl ⟨_, [t], t' :: ts, List.cons_ne_nil _ _, rfl, .single ho, rfl⟩

end Loop

/-! ## What is read is an open rendering -/

/-- Nothing goes on with an expression at the priority `p`. -/
def Stops (p : ℕ) (after : List SqlToken) : Prop :=
  ∀ t ts op, after = t :: ts → operatorOf t = some op → priority op < p

/-- The next token is a right parenthesis. -/
def Closes (after : List SqlToken) : Prop :=
  ∃ rp ts, after = rp :: ts ∧ rp.detail = .symbol .rparen

/-- **What follows an open rendering** that has been read. -/
def Follows : ℕ → ℕ → List SqlToken → Prop
  | 0, p, after => Stops p after
  | _ + 1, _, after => Closes after

/-- **An expression has been read** between two states of the parser. -/
def Read (p : ℕ) (e : ExprNode) (s s' : SqlParser) : Prop :=
  ∃ k w after, s.rest = w ++ after ∧ OpenRendering k p e w ∧ Follows k p after ∧ s' = skip w s

section Soundness

variable {fuel p : ℕ} {s s' : SqlParser} {e : ExprNode}

theorem stops_operandPriority (after : List SqlToken) : Stops operandPriority after :=
  fun _ _ op _ _ => priority_lt op

theorem Stops.mono {q : ℕ} {after : List SqlToken} (h : Stops p after) (hpq : p ≤ q) :
    Stops q after := fun t ts op hafter ho => (h t ts op hafter ho).trans_le hpq

theorem operatorOf_rparen {t : SqlToken} (h : t.detail = .symbol .rparen) :
    operatorOf t = none := by
  rw [operatorOf, h]

/-- Where one parenthesis closes everything, nothing goes on. -/
theorem Closes.stops {after : List SqlToken} (h : Closes after) : Stops p after := by
  obtain ⟨rp, ts, rfl, hrp⟩ := h
  intro t ts' op hafter ho
  obtain ⟨rfl, -⟩ := List.cons.inj hafter
  rw [operatorOf_rparen hrp] at ho
  cases ho

theorem Follows.stops {k : ℕ} {after : List SqlToken} (h : Follows k p after) : Stops p after := by
  cases k with
  | zero => exact h
  | succ k => exact Closes.stops h

theorem Follows.mono {k q : ℕ} {after : List SqlToken} (h : Follows k p after) (hpq : p ≤ q) :
    Follows k q after := by
  cases k with
  | zero => exact Stops.mono h hpq
  | succ k => exact h

/-- A single token is only read as an operand. -/
theorem operand_of_rest {k : ℕ} {w after : List SqlToken} {x : SqlToken}
    (hw : OpenRendering k p e w) (hrest : s.rest = w ++ after) (hs : s.rest = [x]) :
    Operand e x := by
  obtain ⟨t, w', rfl⟩ := List.exists_cons_of_ne_nil hw.ne_nil
  rw [hs] at hrest
  obtain ⟨rfl, hnil⟩ := List.cons.inj hrest
  obtain ⟨rfl, -⟩ := List.append_eq_nil_iff.mp hnil.symm
  exact hw.operand_of_single

/-- `parse_primary` reads what is no binary expression outside of parentheses. -/
def PrimarySound (fuel : ℕ) : Prop :=
  ∀ {s s' e}, parsePrimary fuel s = .ok e s' → ∃ k w after, s.rest = w ++ after
    ∧ (∀ p, OpenRendering k p e w) ∧ Follows k operandPriority after ∧ s' = skip w s

/-- `parse_binary_tree` reads an expression. -/
def TreeSound (fuel : ℕ) : Prop :=
  ∀ {p s s' e}, p ≤ operandPriority → parseBinaryTree fuel p s = .ok e s' → Read p e s s'

/-- Its loop reads an expression that begins with the one it is given. -/
def LoopSound (fuel : ℕ) : Prop :=
  ∀ {p m k left w after s s' e}, p ≤ m → s.rest = w ++ after → OpenRendering k m left w →
    Follows k (m + 1) after → parseBinaryLoop fuel p left (skip w s) = .ok e s' → Read p e s s'

theorem toBinaryExpr_eq_ok {node : ExprNode} (h : toBinaryExpr node s = .ok e s') :
    node = e ∧ s = s' ∧ e.isBinaryExpr = true := by
  unfold toBinaryExpr at h
  by_cases hnode : node.isBinaryExpr = true
  · rw [if_pos hnode] at h
    obtain ⟨rfl, rfl⟩ := EStateM.Result.ok.inj h
    exact ⟨rfl, rfl, hnode⟩
  · rw [if_neg hnode] at h
    cases h

/-- A parenthesis holds a binary expression behind which there is a right
parenthesis, and the cursor stays on that. -/
theorem parseParenthesized_eq_ok (h : parseParenthesized fuel s = .ok e s') :
    parseBinaryTree fuel 0 s = .ok e s' ∧ e.isBinaryExpr = true ∧ Closes s'.rest := by
  obtain ⟨tree, s₁, hread, h⟩ := bind_eq_ok h
  obtain ⟨node, s₂, hnode, h⟩ := bind_eq_ok h
  obtain ⟨rfl, rfl, hbinary⟩ := toBinaryExpr_eq_ok hnode
  cases hrest : s₁.rest with
  | nil =>
    have hat : isAt (fun t => t.detail == .symbol .rparen) s₁ = .ok false s₁ := by
      unfold isAt
      rw [hrest]
      rfl
    have hmatches : matches_ (.symbol .rparen) s₁ = .ok false s₁ := hat
    rw [bind_ok hmatches] at h
    cases h
  | cons t ts =>
    rw [ifMatches_bind hrest] at h
    by_cases ht : t.detail = .symbol .rparen
    · rw [if_pos ht] at h
      obtain ⟨rfl, rfl⟩ := EStateM.Result.ok.inj h
      exact ⟨hread, hbinary, t, ts, hrest, ht⟩
    · rw [if_neg ht] at h
      cases h

theorem parseNegation_eq_ok (h : parseNegation fuel s = .ok e s') :
    ∃ right, parsePrimary fuel s = .ok right s' ∧ e = .prefixExpr .not right := by
  obtain ⟨right, s₁, hread, h⟩ := bind_eq_ok h
  obtain ⟨rfl, rfl⟩ := EStateM.Result.ok.inj h
  exact ⟨right, hread, rfl⟩

/-- An operand is neither a parenthesis nor a negation. -/
theorem not_operand {t : SqlToken} (h : Operand e t) :
    t.detail ≠ .symbol .lparen ∧ t.detail ≠ .operator .not ∧ t.detail ≠ .keyword .not := by
  cases h with
  | identifier hd => simp [hd]
  | literal hd => simp [hd]
  | null hd => simp [hd]

/-- If the cursor is on a right parenthesis behind an open rendering, the
parenthesis is what follows. -/
theorem closes_of_skip {k : ℕ} {w after : List SqlToken} (hw : OpenRendering k p e w)
    (hrest : s.rest = w ++ after) (h : Closes (skip w s).rest) : Closes after := by
  cases after with
  | nil =>
    obtain ⟨w', t, e', rfl, ht⟩ := hw.last
    rw [List.append_nil] at hrest
    rw [rest_skip_last hrest] at h
    obtain ⟨rp, ts, hcons, hrp⟩ := h
    obtain ⟨rfl, -⟩ := List.cons.inj hcons
    cases ht with
    | identifier hd => simp [hd] at hrp
    | literal hd => simp [hd] at hrp
    | null hd => simp [hd] at hrp
  | cons t ts =>
    rwa [rest_skip hrest (List.cons_ne_nil _ _)] at h

/-- An operand or a negation or a parenthesis. -/
theorem primarySound_succ (htree : TreeSound fuel) (hprimary : PrimarySound fuel) :
    PrimarySound (fuel + 1) := by
  intro s s' e h
  cases hs : s.rest with
  | nil =>
    rw [parsePrimary] at h
    have hcurrent : current s = .error .nullPointer s := by
      unfold current
      rw [hs]
    rw [bind_error hcurrent] at h
    cases h
  | cons t ts =>
    rcases parsePrimary_cases fuel hs with hlp | hnot | ⟨e', ht⟩ | herror
    · rw [parsePrimary_paren hs hlp] at h
      obtain ⟨hread, hbinary, hclose⟩ := parseParenthesized_eq_ok h
      have hread := htree (Nat.zero_le _) hread
      obtain ⟨k, w, after, hrest, hw, -, rfl⟩ := hread
      cases ts with
      | nil =>
        rw [next_of_single hs] at hrest
        exact absurd hlp (not_operand (operand_of_rest hw hrest hs)).1
      | cons t' ts =>
        have hnext : s.next.rest = t' :: ts := rest_next hs (List.cons_ne_nil _ _)
        refine ⟨k + 1, t :: w, after, ?_, fun p => .paren hlp hbinary hw, ?_, rfl⟩
        · rw [List.cons_append, ← hrest, hnext]
        · exact closes_of_skip hw hrest hclose
    · rw [parsePrimary_not hs hnot] at h
      obtain ⟨right, hread, rfl⟩ := parseNegation_eq_ok h
      obtain ⟨k, w, after, hrest, hw, hfollows, rfl⟩ := hprimary hread
      cases ts with
      | nil =>
        rw [next_of_single hs] at hrest
        exact absurd hnot (not_operand (operand_of_rest (hw 0) hrest hs)).2.1
      | cons t' ts =>
        have hnext : s.next.rest = t' :: ts := rest_next hs (List.cons_ne_nil _ _)
        refine ⟨k, t :: w, after, ?_, fun p => .negation hnot (hw _), hfollows, rfl⟩
        rw [List.cons_append, ← hrest, hnext]
    · rw [parsePrimary_operand hs ht] at h
      obtain ⟨rfl, rfl⟩ := EStateM.Result.ok.inj h
      exact ⟨0, [t], ts, rfl, fun p => .operand ht, stops_operandPriority ts, rfl⟩
    · rw [herror] at h
      cases h

theorem treeSound_succ (hprimary : PrimarySound fuel) (hloop : LoopSound fuel) :
    TreeSound (fuel + 1) := by
  intro p s s' e hp h
  rw [parseBinaryTree] at h
  obtain ⟨left, s₁, hleft, h⟩ := bind_eq_ok h
  obtain ⟨k, w, after, hrest, hw, hfollows, rfl⟩ := hprimary hleft
  exact hloop hp hrest (hw operandPriority) (hfollows.mono (Nat.le_succ _)) h

/-- What comes between two tokens that an expression is not read from. -/
theorem operator_ne_operand {t : SqlToken} {op : AstOperator} (ho : operatorOf t = some op) :
    ¬ Operand e t := fun ht => by
  rw [operatorOf_operand ht] at ho
  cases ho

/-- **The loop**: an operator of the priority `q` that it goes on with is followed by
an expression of operators of higher priorities, behind which the next has at
most the priority `q`. -/
theorem loopSound_succ (htree : TreeSound fuel) (hloop : LoopSound fuel) :
    LoopSound (fuel + 1) := by
  intro p m k left w after s s' e hp hrest hw hfollows h
  -- the loop returns what it has been given
  have hdone : Stops p after → parseBinaryLoop (fuel + 1) p left (skip w s) = .ok left (skip w s) →
      Read p e s s' := fun hstops hreturn => by
    obtain ⟨rfl, rfl⟩ := EStateM.Result.ok.inj (hreturn.symm.trans h)
    refine ⟨k, w, after, hrest, hw.mono hp, ?_, rfl⟩
    cases k with
    | zero => exact hstops
    | succ k => exact hfollows
  cases after with
  | nil =>
    obtain ⟨w', t, e', rfl, ht⟩ := hw.last
    rw [List.append_nil] at hrest
    refine hdone (fun t ts op hnil => by cases hnil) ?_
    exact parseBinaryLoop_none (rest_skip_last hrest) (operatorOf_operand ht)
  | cons t ts =>
    have hat : (skip w s).rest = t :: ts := rest_skip hrest (List.cons_ne_nil _ _)
    cases ho : operatorOf t with
    | none =>
      refine hdone ?_ (parseBinaryLoop_none hat ho)
      intro t' ts' op hcons ho'
      obtain ⟨rfl, -⟩ := List.cons.inj hcons
      rw [ho] at ho'
      cases ho'
    | some op =>
      have hpriority : priority op < m + 1 := hfollows.stops t ts op rfl ho
      by_cases hlt : priority op < p
      · refine hdone ?_ (parseBinaryLoop_lt hat ho hlt)
        intro t' ts' op' hcons ho'
        obtain ⟨rfl, -⟩ := List.cons.inj hcons
        rw [ho] at ho'
        obtain rfl := Option.some.inj ho'
        exact hlt
      · rw [parseBinaryLoop_ge hat ho (Nat.not_lt.mp hlt)] at h
        cases k with
        | succ k =>
          obtain ⟨rp, ts', hcons, hrp⟩ := hfollows
          obtain ⟨rfl, -⟩ := List.cons.inj hcons
          rw [operatorOf_rparen hrp] at ho
          cases ho
        | zero =>
          rcases readIsNot_next hat ho with
            ⟨op', o, ts', hts, htokens, hoperator, hread⟩ | ⟨op', x, s₁, hread, hx, hlast⟩
          · rw [bind_ok hread] at h
            obtain ⟨right, s₂, hright, h⟩ := bind_eq_ok h
            obtain ⟨k', w', after', hrest', hw', hfollows', rfl⟩ := htree (priority_lt op) hright
            have hall : s.rest = w ++ (o ++ w') ++ after' := by
              have hskip : (skip o (skip w s)).rest = ts' :=
                rest_skip (hat.trans htokens) hts
              rw [hrest, htokens, ← hskip, hrest', List.append_assoc, List.append_assoc]
            rw [← skip_append, ← skip_append] at h
            refine hloop (m := priority op) (Nat.not_lt.mp hlt) hall ?_ hfollows' h
            exact .binary hoperator le_rfl (hw.mono (Nat.lt_succ_iff.mp hpriority)) hw'
          · -- the operator is the last token, from which no expression is read
            rw [bind_ok hread] at h
            obtain ⟨right, s₂, hright, -⟩ := bind_eq_ok h
            obtain ⟨k', w', after', hrest', hw', -, -⟩ := htree (priority_lt op) hright
            have hoperand := operand_of_rest hw' hrest' hx
            rcases hlast with ⟨rfl, -⟩ | hnot
            · exact absurd hoperand (operator_ne_operand ho)
            · exact absurd hnot (not_operand hoperand).2.2

theorem sound (fuel : ℕ) : PrimarySound fuel ∧ TreeSound fuel ∧ LoopSound fuel := by
  induction fuel with
  | zero =>
    refine ⟨fun h => ?_, fun _ h => ?_, fun _ _ _ _ h => ?_⟩
    · rw [parsePrimary] at h
      cases h
    · rw [parseBinaryTree] at h
      cases h
    · rw [parseBinaryLoop] at h
      cases h
  | succ fuel ih =>
    obtain ⟨hprimary, htree, hloop⟩ := ih
    exact ⟨primarySound_succ htree hprimary, treeSound_succ hprimary hloop,
      loopSound_succ htree hloop⟩

/-- **What is read as an expression is an open rendering of it.** -/
theorem parseBinaryTree_sound (hp : p ≤ operandPriority)
    (h : parseBinaryTree fuel p s = .ok e s') : Read p e s s' :=
  (sound fuel).2.1 hp h

end Soundness

/-! ## Open renderings are read -/

/-- **With enough fuel** a method returns. -/
def Returns {α : Type} (f : ℕ → Parse α) (s : SqlParser) (a : α) (s' : SqlParser) : Prop :=
  ∃ n, ∀ fuel ≥ n, f fuel s = .ok a s'

section Completeness

variable {p m k : ℕ} {s s₁ s' : SqlParser} {e e' : ExprNode} {w after : List SqlToken}

theorem returns_of_succ {α : Type} {f : ℕ → Parse α} {a : α}
    (h : ∃ n, ∀ fuel ≥ n, f (fuel + 1) s = .ok a s') : Returns f s a s' := by
  obtain ⟨n, h⟩ := h
  refine ⟨n + 1, fun fuel hfuel => ?_⟩
  obtain ⟨fuel, rfl⟩ := Nat.exists_eq_add_of_le hfuel
  rw [Nat.add_right_comm]
  exact h _ (Nat.le_add_right _ _)

/-- A tree begins with its first operand. -/
theorem returns_tree (hprimary : Returns parsePrimary s e s₁)
    (hloop : Returns (fun fuel => parseBinaryLoop fuel p e) s₁ e' s') :
    Returns (fun fuel => parseBinaryTree fuel p) s e' s' := by
  obtain ⟨n, hprimary⟩ := hprimary
  obtain ⟨n', hloop⟩ := hloop
  refine returns_of_succ ⟨max n n', fun fuel hfuel => ?_⟩
  rw [parseBinaryTree, bind_ok (hprimary fuel (le_of_max_le_left hfuel))]
  exact hloop fuel (le_of_max_le_right hfuel)

/-- Behind an open rendering that nothing goes on with, the loop ends. -/
theorem returns_loop_stop (hw : OpenRendering k m e w) (hrest : s.rest = w ++ after)
    (hfollows : Follows k p after) :
    Returns (fun fuel => parseBinaryLoop fuel p e') (skip w s) e' (skip w s) := by
  refine returns_of_succ ⟨0, fun fuel _ => ?_⟩
  cases after with
  | nil =>
    obtain ⟨w', t, e', rfl, ht⟩ := hw.last
    rw [List.append_nil] at hrest
    exact parseBinaryLoop_none (rest_skip_last hrest) (operatorOf_operand ht)
  | cons t ts =>
    have hat : (skip w s).rest = t :: ts := rest_skip hrest (List.cons_ne_nil _ _)
    cases ho : operatorOf t with
    | none => exact parseBinaryLoop_none hat ho
    | some op => exact parseBinaryLoop_lt hat ho (hfollows.stops t ts op rfl ho)

/-- An expression does not begin with the keyword `NOT`. -/
theorem OpenRendering.head (hw : OpenRendering k p e w) :
    ∃ t ts, w = t :: ts ∧ t.detail ≠ .keyword .not := by
  induction hw with
  | operand h => exact ⟨_, _, rfl, (not_operand h).2.2⟩
  | paren hlp _ _ _ => exact ⟨_, _, rfl, by rw [hlp]; exact SqlTokenDetail.noConfusion⟩
  | negation hn _ _ => exact ⟨_, _, rfl, by rw [hn]; exact SqlTokenDetail.noConfusion⟩
  | binary _ _ _ _ ihl _ =>
    obtain ⟨t, ts, rfl, ht⟩ := ihl
    exact ⟨t, _, rfl, ht⟩

/-- The tokens of an operator are read in front of an expression. -/
theorem readIsNot_tokens {op op' : AstOperator} {o xs : List SqlToken} {x : SqlToken}
    (ho : OperatorTokens op op' o) (hx : x.detail ≠ .keyword .not)
    (hrest : s.rest = o ++ x :: xs) : readIsNot op s.next = .ok op' (skip o s) := by
  cases ho with
  | single h =>
    have hnext : s.next.rest = x :: xs := rest_next hrest (List.cons_ne_nil _ _)
    rw [readIsNot_eq hnext, if_neg fun h => hx h.2]
    rfl
  | isNot h hnot =>
    have hnext : s.next.rest = _ := rest_next hrest (List.cons_ne_nil _ _)
    rw [readIsNot_eq hnext, if_pos ⟨rfl, hnot⟩]
    rfl

/-- **A parenthesis is read** when the expression behind it is, and closed by what
follows. -/
theorem returns_paren {lp : SqlToken} (hlp : lp.detail = .symbol .lparen)
    (he : e.isBinaryExpr = true) (hrest : s.rest = lp :: after) (hclose : Closes s'.rest)
    (h : Returns (fun fuel => parseBinaryTree fuel 0) s.next e s') :
    Returns parsePrimary s e s' := by
  obtain ⟨n, h⟩ := h
  refine returns_of_succ ⟨n, fun fuel hfuel => ?_⟩
  obtain ⟨rp, ts, hrp, hdetail⟩ := hclose
  have hnode : toBinaryExpr e s' = .ok e s' := by
    rw [toBinaryExpr, if_pos he]
    rfl
  rw [parsePrimary_paren hrest hlp, parseParenthesized, bind_ok (h fuel hfuel), bind_ok hnode,
    ifMatches_bind hrp, if_pos hdetail]
  rfl

theorem returns_negation {n : SqlToken} (hn : n.detail = .operator .not)
    (hrest : s.rest = n :: after) (h : Returns parsePrimary s.next e s') :
    Returns parsePrimary s (.prefixExpr .not e) s' := by
  obtain ⟨m, h⟩ := h
  refine returns_of_succ ⟨m, fun fuel hfuel => ?_⟩
  rw [parsePrimary_not hrest hn, parseNegation, bind_ok (h fuel hfuel)]
  rfl

/-- An operator and the expression behind it are read. -/
theorem returns_operator {op op' : AstOperator} {t : SqlToken} {ts : List SqlToken}
    {left right : ExprNode} {s₂ : SqlParser} (hrest : s.rest = t :: ts)
    (ho : operatorOf t = some op) (hp : p ≤ priority op)
    (hread : readIsNot op s.next = .ok op' s₁)
    (hright : Returns (fun fuel => parseBinaryTree fuel (priority op + 1)) s₁ right s₂)
    (hloop : Returns (fun fuel => parseBinaryLoop fuel p (.binaryExpr op' left right)) s₂ e' s') :
    Returns (fun fuel => parseBinaryLoop fuel p left) s e' s' := by
  obtain ⟨n, hright⟩ := hright
  obtain ⟨n', hloop⟩ := hloop
  refine returns_of_succ ⟨max n n', fun fuel hfuel => ?_⟩
  rw [parseBinaryLoop_ge hrest ho hp, bind_ok hread,
    bind_ok (hright fuel (le_of_max_le_left hfuel))]
  exact hloop fuel (le_of_max_le_right hfuel)

/-- What follows an operand. -/
theorem Follows.operand (h : Follows k p after) : Follows k (operandPriority + 1) after := by
  cases k with
  | zero => exact (stops_operandPriority after).mono (Nat.le_succ _)
  | succ k => exact h

/-- **An open rendering is moved over**: a tree that begins with it goes on with the
loop, and where there is no operator outside of parentheses it is one operand. -/
theorem OpenRendering.moves (hw : OpenRendering k m e w) : ∀ {s after},
    s.rest = w ++ after → Follows k (m + 1) after →
    (m = operandPriority → Returns parsePrimary s e (skip w s))
      ∧ ∀ {p e' s'}, p ≤ m → Returns (fun fuel => parseBinaryLoop fuel p e) (skip w s) e' s' →
        Returns (fun fuel => parseBinaryTree fuel p) s e' s' := by
  -- what `parse_primary` reads is also read as a tree
  have hboth : ∀ {m e s s₁}, Returns parsePrimary s e s₁ →
      (m = operandPriority → Returns parsePrimary s e s₁)
        ∧ ∀ {p e' s'}, p ≤ m → Returns (fun fuel => parseBinaryLoop fuel p e) s₁ e' s' →
          Returns (fun fuel => parseBinaryTree fuel p) s e' s' := fun hprimary =>
    ⟨fun _ => hprimary, fun _ hloop => returns_tree hprimary hloop⟩
  induction hw with
  | operand ht =>
    intro s after hrest _
    exact hboth (returns_of_succ ⟨0, fun fuel _ => parsePrimary_operand hrest ht⟩)
  | @paren k m e lp w hlp he hw ih =>
    intro s after hrest hclose
    obtain ⟨rp, ts, rfl, hrp⟩ : Closes after := hclose
    have hclose : Closes (rp :: ts) := ⟨rp, ts, rfl, hrp⟩
    have hne : w ++ rp :: ts ≠ [] := List.append_ne_nil_of_left_ne_nil hw.ne_nil _
    have hnext : s.next.rest = w ++ rp :: ts := rest_next hrest hne
    have hstops : Follows k 0 (rp :: ts) := by
      cases k with
      | zero => exact Closes.stops hclose
      | succ k => exact hclose
    obtain ⟨-, htree⟩ := ih hnext (hstops.mono (Nat.zero_le _))
    have hbehind : (skip w s.next).rest = rp :: ts := rest_skip hnext (List.cons_ne_nil _ _)
    exact hboth (returns_paren hlp he hrest ⟨rp, ts, hbehind, hrp⟩
      (htree le_rfl (returns_loop_stop hw hnext hstops)))
  | @negation k m e n w hn hw ih =>
    intro s after hrest hfollows
    have hne : w ++ after ≠ [] := List.append_ne_nil_of_left_ne_nil hw.ne_nil after
    have hnext : s.next.rest = w ++ after := rest_next hrest hne
    obtain ⟨hprimary, -⟩ := ih hnext hfollows.operand
    exact hboth (returns_negation hn hrest (hprimary rfl))
  | @binary k m op op' l r wl o wr ho hp hl hr ihl ihr =>
    intro s after hrest hfollows
    refine ⟨fun hm => absurd (priority_lt op) (Nat.not_lt.mpr (hm ▸ hp)), fun hpm hloop => ?_⟩
    rw [List.append_assoc, List.append_assoc] at hrest
    obtain ⟨t, o', hcons, hoperator⟩ := ho.head
    have hne : o ++ (wr ++ after) ≠ [] := by
      rw [hcons]
      exact List.cons_ne_nil _ _
    have hat : (skip wl s).rest = o ++ (wr ++ after) := rest_skip hrest hne
    have hright : (skip o (skip wl s)).rest = wr ++ after :=
      rest_skip hat (List.append_ne_nil_of_left_ne_nil hr.ne_nil after)
    have hstops : Stops (priority op + 1) (o ++ (wr ++ after)) := by
      intro x xs op₁ hx hop
      rw [hcons, List.cons_append] at hx
      obtain ⟨rfl, -⟩ := List.cons.inj hx
      rw [hoperator] at hop
      obtain rfl := Option.some.inj hop
      exact Nat.lt_succ_self _
    have hfollows' : Follows k (priority op + 1) after := hfollows.mono (Nat.succ_le_succ hp)
    refine (ihl hrest hstops).2 (hpm.trans hp) ?_
    have hfirst : (skip wl s).rest = t :: (o' ++ (wr ++ after)) := by
      rw [hat, hcons, List.cons_append]
    have hread : readIsNot op (skip wl s).next = .ok op' (skip o (skip wl s)) := by
      obtain ⟨x, w', rfl, hx⟩ := hr.head
      exact readIsNot_tokens ho hx hat
    refine returns_operator hfirst hoperator (hpm.trans hp) hread
      ((ihr hright (hfollows'.mono (Nat.le_succ _))).2 le_rfl
        (returns_loop_stop hr hright hfollows')) ?_
    rw [← skip_append, ← skip_append]
    exact hloop

/-- **Every open rendering is read** in front of what does not go on with it. -/
theorem parseBinaryTree_complete (hw : OpenRendering k p e w) (hrest : s.rest = w ++ after)
    (hfollows : Follows k p after) :
    Returns (fun fuel => parseBinaryTree fuel p) s e (skip w s) :=
  (hw.moves hrest (hfollows.mono (Nat.le_succ p))).2 le_rfl
    (returns_loop_stop hw hrest hfollows)

end Completeness

end Sql
