import Deltabase.Sql.SurplusTokens

/-!
# Renderings that the parser does not read

Some statements can be spelt in a way that the parser refuses or reads as another
statement, and each time it is one place of the parser that decides.

The loop of `parse_select` over the columns leaves the cursor on `FROM`, and what
follows it moves on to look for `FROM`: no list of columns is read, only a `*`
(`parses_select_iff`). `parse_primary` does not move over the right parenthesis that
it has found: a parenthesis is read only at the end of the `WHERE`, and only one
(`parses_grouped_iff`). `parse_column_def` moves on twice behind the type, and asks
that a constraint also be a type; and `is_unique` is set only where there is a
`UNIQUE` (`parses_created_iff`).
-/

namespace Sql

open SqlParser Stateful

variable {ts body w : List SqlToken} {stmt : Statement}

/-! ## Renderings of other expressions -/

/-- The right parenthesis that ends a statement. -/
theorem AtEnd.trailing_rparen {tail : List SqlToken} (h : AtEnd tail) {rp : SqlToken}
    (hrp : rp.detail = .symbol .rparen) : Trailing 1 [] (rp :: tail) := by
  rcases h with rfl | ⟨t, ht, rfl⟩
  · exact .closed hrp
  · exact .closedSemicolon hrp ht

/-- An input is a rendering and what may follow it. -/
theorem InputOf.exists_atEnd (h : InputOf body ts) : ∃ tail, AtEnd tail ∧ ts = body ++ tail := by
  cases h with
  | plain => exact ⟨[], Or.inl rfl, (List.append_nil _).symm⟩
  | semicolon ht => exact ⟨_, Or.inr ⟨_, ht, rfl⟩, rfl⟩

theorem Commas.mono {α : Type} {X Y : α → List SqlToken → Prop} (hXY : ∀ a w, X a w → Y a w)
    {items : List α} (h : Commas X items w) : Commas Y items w := by
  induction h with
  | single h => exact .single (hXY _ _ h)
  | cons h hc _ ih => exact .cons (hXY _ _ h) hc ih

theorem WhereTokens.mono {X Y : ExprNode → List SqlToken → Prop} (hXY : ∀ e w, X e w → Y e w)
    {where_ : Option ExprNode} (h : WhereTokens X where_ w) : WhereTokens Y where_ w := by
  cases h with
  | none => exact .none
  | some ht h => exact .some ht (hXY _ _ h)

/-- What the parser returns for a rendering is read without surplus tokens. -/
theorem exists_reads_of_parses (hcovered : Covered stmt) (hbody : Renders (Rendering 0) stmt body)
    (hts : InputOf body ts) (h : Parses ts stmt) :
    ∃ k w after, k ≤ 1 ∧ Reads stmt k [] w after ∧ Trailing k [] after ∧ ts = w ++ after := by
  obtain ⟨fuel, hrun⟩ := h
  obtain ⟨missing, surplus, haccepts⟩ := accepts_of_run hcovered (hrun fuel le_rfl)
  obtain ⟨hmissing, hsurplus⟩ := haccepts.faultless ⟨body, hts, hbody⟩
  cases haccepts with
  | @intro k inner extra w after hreads htrailing =>
    obtain ⟨rfl, rfl⟩ := List.append_eq_nil_iff.mp hsurplus
    exact ⟨k, w, after, Nat.sub_eq_zero_iff_le.mp hmissing, hreads, htrailing, rfl⟩

/-! ## The columns of a `SELECT` -/

/-- **A `SELECT` that is read** has a `*`. -/
theorem columns_eq_nil_of_parses {stmt : SelectStatement}
    (hbody : Renders (OpenRendering 0 0) (.select stmt) body) (hts : InputOf body ts)
    (h : Parses ts (.select stmt)) : stmt.columns = [] := by
  have hrenders : Renders (Rendering 0) (.select stmt) body := by
    cases hbody with
    | select hs hc hf ht hw => exact .select hs hc hf ht (hw.mono fun _ _ => (·.rendering))
  obtain ⟨k, w, after, -, hreads, -, -⟩ :=
    exists_reads_of_parses (.select stmt) hrenders hts h
  cases hreads with
  | select _ hc _ _ _ _ =>
    cases hc with
    | all _ => rfl

/-- **A `SELECT` with a `*`** is in the grammar. -/
theorem accepts_select_all {stmt : SelectStatement} {after : List SqlToken}
    (hwhere : ∀ e ∈ stmt.where_, e.isBinaryExpr = true)
    (hbody : Renders (OpenRendering 0 0) (.select stmt) body) (hafter : AtEnd after)
    (hall : stmt.columns = []) : Accepts (.select stmt) 0 [] (body ++ after) := by
  cases hbody with
  | @select table columns where_ s f cw tw ww hs hc hf ht hw =>
    obtain rfl : columns = [] := hall
    have hlist : SelectList [] [] cw := by
      cases hc with
      | all hx => exact .all hx
      | listed h => exact absurd rfl (commas_ne_nil h)
    have hend : TableEnds table (ww ++ after) := fun _ =>
      hw.notNext hafter (fun h => nomatch h) (fun h => nomatch h)
    have hreads := Reads.select hs hlist hf ht hend (WhereReads.of_tokens hw hwhere hafter)
    exact Accepts.intro hreads hafter.trailing

/-- **A `SELECT` without parentheses is returned as it is** exactly if it has a `*`
for its columns. -/
theorem parses_select_iff {stmt : SelectStatement}
    (hwhere : ∀ e ∈ stmt.where_, e.isBinaryExpr = true)
    (hbody : Renders (OpenRendering 0 0) (.select stmt) body) (hts : InputOf body ts) :
    Parses ts (.select stmt) ↔ stmt.columns = [] := by
  refine ⟨columns_eq_nil_of_parses hbody hts, fun hall => ?_⟩
  obtain ⟨tail, htail, rfl⟩ := hts.exists_atEnd
  exact parses_of_accepts (accepts_select_all hwhere hbody htail hall)

/-- `SELECT a FROM t`, with a column or with a `*`. -/
def selectTokens (column : SqlToken) : List SqlToken :=
  [spelt "select" (.keyword .select), column, spelt "from" (.keyword .from_),
    spelt "t" .identifier]

/-- What it stands for. -/
def selectStatement (columns : List SqlToken) : SelectStatement :=
  { table := { tableName := spelt "t" .identifier }, columns, where_ := none }

theorem renders_selectTokens {column : SqlToken} {columns : List SqlToken}
    (h : ColumnTokens columns [column]) :
    Renders (OpenRendering 0 0) (.select (selectStatement columns)) (selectTokens column) :=
  .select (s := spelt "select" (.keyword .select)) (f := spelt "from" (.keyword .from_))
    rfl h rfl (.plain (t := spelt "t" .identifier) rfl) .none

/-- `SELECT * FROM t;`. -/
theorem parses_select_star :
    Parses (selectTokens (spelt "*" (.operator .mul)) ++ [spelt ";" (.symbol .semicolon)])
      (.select (selectStatement [])) ↔ (selectStatement []).columns = [] := by
  have hsemicolon : IsSemicolon (spelt ";" (.symbol .semicolon)) := rfl
  exact parses_select_iff (fun e he => nomatch he)
    (renders_selectTokens (.all (t := spelt "*" (.operator .mul)) rfl)) (.semicolon hsemicolon)

/-- `SELECT a FROM t` is refused. -/
theorem not_parses_select : ¬ ∀ (stmt : SelectStatement) (body ts : List SqlToken),
    (∀ e ∈ stmt.where_, e.isBinaryExpr = true) →
      Renders (OpenRendering 0 0) (.select stmt) body → InputOf body ts →
        Parses ts (.select stmt) := by
  intro h
  have hcolumns : ColumnTokens [spelt "a" .identifier] [spelt "a" .identifier] :=
    .listed (.single (.intro rfl))
  have hbody := renders_selectTokens hcolumns
  have hwhere : ∀ e ∈ (selectStatement [spelt "a" .identifier]).where_, e.isBinaryExpr = true :=
    fun _ he => nomatch he
  have hparses := h _ _ _ hwhere hbody .plain
  exact List.cons_ne_nil _ _ (columns_eq_nil_of_parses hbody .plain hparses)

/-! ## Parentheses in a `WHERE` -/

/-- The operators that compare. -/
def IsComparison (op : AstOperator) : Prop :=
  op = .eq ∨ op = .neq ∨ op = .lt ∨ op = .lte ∨ op = .gr ∨ op = .gre ∨ op = .is

/-- **A rendering of a condition** of `OR`, `AND` and comparisons, whose operators
outside of parentheses have a priority of at least `p`. Parentheses may stand around
every part of it that is a condition, as many as one likes. -/
inductive Grouped : ℕ → ExprNode → List SqlToken → Prop
  | comparison {p : ℕ} {op op' : AstOperator} {l r : ExprNode} {a b : SqlToken}
      {o : List SqlToken} (ho : OperatorTokens op op' o) (hop : IsComparison op)
      (hp : p ≤ priority op) (hl : Operand l a) (hr : Operand r b) :
      Grouped p (.binaryExpr op' l r) ([a] ++ (o ++ [b]))
  | connective {p : ℕ} {op op' : AstOperator} {l r : ExprNode} {wl o wr : List SqlToken}
      (ho : OperatorTokens op op' o) (hop : op = .or ∨ op = .and) (hp : p ≤ priority op)
      (hl : Grouped (priority op) l wl) (hr : Grouped (priority op + 1) r wr) :
      Grouped p (.binaryExpr op' l r) (wl ++ (o ++ wr))
  | paren {p : ℕ} {e : ExprNode} {lp rp : SqlToken} {w : List SqlToken}
      (hlp : lp.detail = .symbol .lparen) (hrp : rp.detail = .symbol .rparen)
      (h : Grouped 0 e w) : Grouped p e (lp :: (w ++ [rp]))

/-- **A statement with a `WHERE`**: a `DELETE`, or an `UPDATE` whose assignments are
spelt without parentheses. -/
inductive HasWhere (e : ExprNode) (w : List SqlToken) : Statement → List SqlToken → Prop
  | delete {table : TableIdentifier} {d f v : SqlToken} {tw : List SqlToken}
      (hd : d.detail = .keyword .delete) (hf : f.detail = .keyword .from_)
      (ht : TableTokens table tw) (hv : v.detail = .keyword .where_) :
      HasWhere e w (.delete { table, where_ := some e }) (d :: f :: (tw ++ v :: w))
  | update {table : TableIdentifier} {assignments : List ExprNode} {u s v : SqlToken}
      {tw aw : List SqlToken} (hu : u.detail = .keyword .update) (ht : TableTokens table tw)
      (hs : s.detail = .keyword .set) (ha : Commas (OpenRendering 0 0) assignments aw)
      (hassign : ∀ a ∈ assignments, IsAssignment a) (hv : v.detail = .keyword .where_) :
      HasWhere e w (.update { table, assignments, where_ := some e })
        (u :: (tw ++ s :: (aw ++ v :: w)))

/-- **Nothing stands behind a right parenthesis.** -/
def ClosesLast (w : List SqlToken) : Prop := ∀ t ∈ w.dropLast, t.detail ≠ .symbol .rparen

section

variable {k p : ℕ} {e : ExprNode} {after : List SqlToken}

theorem Grouped.rendering (h : Grouped p e w) : Rendering p e w := by
  induction h with
  | comparison ho _ hp hl hr => exact .binary ho hp (.operand hl) (.operand hr)
  | connective ho _ hp _ _ ihl ihr => exact .binary ho hp ihl ihr
  | paren hlp hrp _ ih => exact .paren hlp hrp ih

theorem Grouped.isBinaryExpr (h : Grouped p e w) : e.isBinaryExpr = true := by
  induction h with
  | comparison _ _ _ _ _ => rfl
  | connective _ _ _ _ _ _ _ => rfl
  | paren _ _ _ ih => exact ih

theorem OperatorTokens.no_rparen {op op' : AstOperator} {o : List SqlToken}
    (h : OperatorTokens op op' o) : ∀ t ∈ o, t.detail ≠ .symbol .rparen := by
  have hoperator : ∀ t, operatorOf t = some op → t.detail ≠ .symbol .rparen := by
    intro t ht hrp
    rw [operatorOf_rparen hrp] at ht
    cases ht
  cases h with
  | single h =>
    intro t ht
    rw [List.mem_singleton.mp ht]
    exact hoperator _ h
  | isNot h hnot =>
    refine List.forall_mem_cons.mpr ⟨hoperator _ h, fun t ht => ?_⟩
    rw [List.mem_singleton.mp ht, hnot]
    exact fun h => nomatch h

/-- An open rendering has left parentheses only. -/
theorem OpenRendering.no_rparen (h : OpenRendering k p e w) :
    ∀ t ∈ w, t.detail ≠ .symbol .rparen := by
  induction h with
  | operand h =>
    intro t ht
    rw [List.mem_singleton.mp ht]
    exact noOperand_symbol _ _ _ h
  | paren hlp _ _ ih =>
    refine List.forall_mem_cons.mpr ⟨?_, ih⟩
    rw [hlp]
    exact fun h => nomatch h
  | negation hn _ ih =>
    refine List.forall_mem_cons.mpr ⟨?_, ih⟩
    rw [hn]
    exact fun h => nomatch h
  | binary ho _ _ _ ihl ihr =>
    rw [List.forall_mem_append, List.forall_mem_append]
    exact ⟨ihl, ho.no_rparen, ihr⟩

theorem Grouped.ne_nil (h : Grouped p e w) : w ≠ [] := by
  cases h with
  | comparison _ _ _ _ _ => exact List.cons_ne_nil _ _
  | connective ho _ _ _ _ =>
    obtain ⟨t, o', rfl, -⟩ := ho.head
    exact List.append_ne_nil_of_right_ne_nil _ (List.cons_ne_nil _ _)
  | paren _ _ _ => exact List.cons_ne_nil _ _

/-- **A condition whose parentheses close at its end** is an open rendering, with at
most one parenthesis that is closed there. -/
theorem Grouped.openRendering (h : Grouped p e w) (hlast : ClosesLast w) :
    OpenRendering 0 p e w
      ∨ ∃ w' rp, w = w' ++ [rp] ∧ rp.detail = .symbol .rparen ∧ OpenRendering 1 p e w' := by
  induction h with
  | comparison ho _ hp hl hr => exact Or.inl (.binary ho hp (.operand hl) (.operand hr))
  | @connective p op op' l r wl o wr ho hop hp hl hr ihl ihr =>
    obtain ⟨u, x, rfl⟩ := List.eq_nil_or_concat' wr |>.resolve_left hr.ne_nil
    have hdrop : (wl ++ (o ++ (u ++ [x]))).dropLast = wl ++ (o ++ u) := by
      rw [← List.append_assoc o, ← List.append_assoc wl, List.dropLast_concat]
    unfold ClosesLast at hlast
    rw [hdrop, List.forall_mem_append, List.forall_mem_append] at hlast
    obtain ⟨hleft, -, hright⟩ := hlast
    have hl' : OpenRendering 0 (priority op) l wl := by
      rcases ihl fun t ht => hleft t (List.dropLast_subset _ ht) with h | ⟨w', rp, rfl, hrp, -⟩
      · exact h
      · exact absurd hrp (hleft rp (List.mem_append_right w' List.mem_cons_self))
    have hr' : ClosesLast (u ++ [x]) := by
      unfold ClosesLast
      rw [List.dropLast_concat]
      exact hright
    rcases ihr hr' with h | ⟨w', rp, heq, hrp, h⟩
    · exact Or.inl (.binary ho hp hl' h)
    · refine Or.inr ⟨wl ++ (o ++ w'), rp, ?_, hrp, .binary ho hp hl' h⟩
      rw [heq, List.append_assoc, List.append_assoc]
  | @paren p e lp rp w hlp hrp h ih =>
    have hinner : ∀ t ∈ w, t.detail ≠ .symbol .rparen := by
      unfold ClosesLast at hlast
      rw [← List.cons_append, List.dropLast_concat] at hlast
      exact fun t ht => hlast t (List.mem_cons_of_mem lp ht)
    rcases ih fun t ht => hinner t (List.dropLast_subset _ ht) with h' | ⟨w', rp', rfl, hrp', -⟩
    · exact Or.inr ⟨lp :: w, rp, rfl, hrp, .paren hlp h.isBinaryExpr h'⟩
    · exact absurd hrp' (hinner rp' (List.mem_append_right w' List.mem_cons_self))

theorem HasWhere.covered (h : HasWhere e w stmt body) : Covered stmt := by
  cases h with
  | delete _ _ _ _ => exact .delete _
  | update _ _ _ _ _ _ => exact .update _

theorem HasWhere.renders (h : HasWhere e w stmt body) (hw : Rendering 0 e w) :
    Renders (Rendering 0) stmt body := by
  cases h with
  | delete hd hf ht hv => exact .delete hd hf ht (.some hv hw)
  | update hu ht hs ha _ hv =>
    exact .update hu ht hs (ha.mono fun _ _ => (·.rendering)) (.some hv hw)

/-- The `WHERE` is the end of the statement. -/
theorem HasWhere.suffix (h : HasWhere e w stmt body) : ∃ front, body = front ++ w := by
  cases h with
  | @delete table d f v tw _ _ _ _ => exact ⟨d :: f :: (tw ++ [v]), by simp⟩
  | @update table assignments u s v tw aw _ _ _ _ _ _ =>
    exact ⟨u :: (tw ++ s :: (aw ++ [v])), by simp⟩

/-- A statement with a `WHERE` that is read is in the grammar. -/
theorem HasWhere.accepts (h : HasWhere e w stmt body) (he : e.isBinaryExpr = true)
    (hw : OpenRendering k 0 e w) (hfollows : Follows k 0 after)
    (htrailing : Trailing k [] after) : Accepts stmt (k - 1) [] (body ++ after) := by
  have hnext : ∀ {d : SqlTokenDetail} {v : SqlToken}, v.detail = .keyword .where_ →
      d ≠ .keyword .where_ → NotNext d (v :: w ++ after) := by
    intro d v hv hd x xs hx hdetail
    obtain ⟨rfl, -⟩ := List.cons.inj hx
    exact hd (hdetail.symm.trans hv)
  cases h with
  | delete hd hf ht hv =>
    have hreads := Reads.delete hd hf ht (fun _ => hnext hv (fun h => by cases h))
      (.some hv hw he hfollows)
    exact Accepts.intro hreads htrailing
  | @update table assignments u s v tw aw hu ht hs ha hassign hv =>
    have hstops : Stops 0 (v :: w ++ after) := by
      intro x xs op hx ho
      obtain ⟨rfl, -⟩ := List.cons.inj hx
      rw [operatorOf, hv] at ho
      cases ho
    have hread := AssignmentsRead.of_commas ha hassign hstops (hnext hv (fun h => by cases h))
    have hreads := Reads.update hu ht hs hread (.some hv hw he hfollows)
    rw [Nat.zero_add] at hreads
    exact Accepts.intro hreads htrailing

theorem TableTokens.no_rparen {table : TableIdentifier} (h : TableTokens table w) :
    ∀ t ∈ w, t.detail ≠ .symbol .rparen := by
  have hidentifier : ∀ t, IsIdentifier t → t.detail ≠ .symbol .rparen := by
    intro t ht
    rw [ht]
    exact fun h => nomatch h
  cases h with
  | plain h =>
    intro t ht
    rw [List.mem_singleton.mp ht]
    exact hidentifier _ h
  | qualified hs hd h =>
    refine List.forall_mem_cons.mpr ⟨hidentifier _ hs, List.forall_mem_cons.mpr ⟨?_, ?_⟩⟩
    · rw [hd]
      exact fun h => nomatch h
    · intro t ht
      rw [List.mem_singleton.mp ht]
      exact hidentifier _ h

/-- What has been read of a statement with a `WHERE` has left parentheses only. -/
theorem HasWhere.no_rparen {w₀ : List SqlToken} (h : HasWhere e w stmt body)
    (hreads : Reads stmt k [] w₀ after) : ∀ t ∈ w₀, t.detail ≠ .symbol .rparen := by
  have hwhere : ∀ {where_ : Option ExprNode} {k : ℕ} {ww after : List SqlToken},
      WhereReads where_ k ww after → ∀ t ∈ ww, t.detail ≠ .symbol .rparen := by
    intro where_ k ww after hw
    cases hw with
    | none _ => exact fun t ht => absurd ht List.not_mem_nil
    | some ht hw _ _ =>
      refine List.forall_mem_cons.mpr ⟨?_, hw.no_rparen⟩
      rw [ht]
      exact fun h => nomatch h
  have hassignments : ∀ {es : List ExprNode} {k : ℕ} {aw after : List SqlToken},
      AssignmentsRead es k aw after → ∀ t ∈ aw, t.detail ≠ .symbol .rparen := by
    intro es k aw after ha
    induction ha with
    | single hw _ _ _ => exact hw.no_rparen
    | cons hw _ hc _ ih =>
      rw [List.forall_mem_append, List.forall_mem_cons, hc]
      exact ⟨hw.no_rparen, fun h => (nomatch h), ih⟩
  cases hreads with
  | delete hd hf ht _ hw =>
    rw [List.forall_mem_cons, List.forall_mem_cons, List.forall_mem_append, hd, hf]
    exact ⟨fun h => (nomatch h), fun h => (nomatch h), ht.no_rparen, hwhere hw⟩
  | update hu ht hs ha hw =>
    rw [List.forall_mem_cons, List.forall_mem_append, List.forall_mem_cons,
      List.forall_mem_append, hu, hs]
    exact ⟨fun h => (nomatch h), ht.no_rparen, fun h => (nomatch h), hassignments ha, hwhere hw⟩
  | _ => cases h

/-- **A condition that is read** closes its parentheses at its end: the parser looks
at one right parenthesis at most, behind everything else. -/
theorem closesLast_of_parses (hw : Grouped 0 e w) (h : HasWhere e w stmt body)
    (hts : InputOf body ts) (hparses : Parses ts stmt) : ClosesLast w := by
  obtain ⟨k, w₀, after, -, hreads, htrailing, hsplit⟩ :=
    exists_reads_of_parses h.covered (h.renders hw.rendering) hts hparses
  have hnone := h.no_rparen hreads
  obtain ⟨front, rfl⟩ := h.suffix
  obtain ⟨tail, -, rfl⟩ := hts.exists_atEnd
  obtain ⟨u, x, hlast, hx⟩ := hw.rendering.last
  subst hlast
  intro t ht hrp
  rw [List.dropLast_concat] at ht
  obtain ⟨u₁, u₂, rfl⟩ := List.append_of_mem ht
  have hall : (front ++ u₁) ++ t :: (u₂ ++ x :: tail) = w₀ ++ after := by
    rw [← hsplit]
    simp
  -- the parenthesis is not in what has been read, so there are two tokens behind that
  obtain ⟨c, -, hafter⟩ : ∃ c, front ++ u₁ = w₀ ++ c ∧ after = c ++ t :: (u₂ ++ x :: tail) := by
    rcases List.append_eq_append_iff.mp hall with ⟨c, hc, hafter⟩ | ⟨c, hc, hafter⟩
    · cases c with
      | nil =>
        rw [List.append_nil] at hc
        exact ⟨[], by rw [hc, List.append_nil], by simpa using hafter.symm⟩
      | cons y c =>
        obtain ⟨rfl, -⟩ := List.cons.inj hafter
        exact absurd hrp (hnone t (hc ▸ List.mem_append_right _ List.mem_cons_self))
    · exact ⟨c, hc, hafter⟩
  have hsecond : ∀ y : SqlToken, ∀ ys, after = y :: ys → ∀ z ∈ ys, IsSemicolon z := by
    intro y ys hy z hz
    cases htrailing with
    | nothing => cases hy
    | semicolon _ | closed _ =>
      obtain ⟨-, rfl⟩ := List.cons.inj hy
      cases hz
    | closedSemicolon _ hsemicolon =>
      obtain ⟨-, rfl⟩ := List.cons.inj hy
      rw [List.mem_singleton.mp hz]
      exact hsemicolon
  have hxmem : ∃ y ys, after = y :: ys ∧ x ∈ ys := by
    cases c with
    | nil => exact ⟨t, _, hafter, by simp⟩
    | cons y c => exact ⟨y, _, hafter, by simp⟩
  obtain ⟨y, ys, hy, hmem⟩ := hxmem
  exact (isFinal_counts hx).1 (hsecond y ys hy x hmem)

/-- A condition that closes its parentheses at its end is in the grammar. -/
theorem exists_accepts_of_closesLast (hw : Grouped 0 e w) (h : HasWhere e w stmt body)
    (hts : InputOf body ts) (hlast : ClosesLast w) :
    ∃ missing, Accepts stmt missing [] ts := by
  obtain ⟨tail, htail, rfl⟩ := hts.exists_atEnd
  rcases hw.openRendering hlast with hopen | ⟨w', rp, rfl, hrp, hopen⟩
  · exact ⟨_, h.accepts hw.isBinaryExpr hopen htail.stops htail.trailing⟩
  · have hclosed := htail.trailing_rparen hrp
    have hcloses : Closes (rp :: tail) := ⟨rp, tail, rfl, hrp⟩
    -- the statement with the parenthesis left open
    obtain ⟨body', rfl, h'⟩ : ∃ body', body = body' ++ [rp] ∧ HasWhere e w' stmt body' := by
      cases h with
      | @delete table d f v tw hd hf ht hv =>
        refine ⟨d :: f :: (tw ++ v :: w'), ?_, .delete hd hf ht hv⟩
        simp
      | @update table assignments u s v tw aw hu ht hs ha hassign hv =>
        refine ⟨u :: (tw ++ s :: (aw ++ v :: w')), ?_, .update hu ht hs ha hassign hv⟩
        simp
    rw [List.append_assoc]
    exact ⟨_, h'.accepts hw.isBinaryExpr hopen hcloses hclosed⟩

/-- **A condition with parentheses is returned as it is grouped** exactly if nothing
stands behind a right parenthesis. -/
theorem parses_grouped_iff (hw : Grouped 0 e w) (h : HasWhere e w stmt body)
    (hts : InputOf body ts) : Parses ts stmt ↔ ClosesLast w := by
  refine ⟨closesLast_of_parses hw h hts, fun hlast => ?_⟩
  obtain ⟨missing, haccepts⟩ := exists_accepts_of_closesLast hw h hts hlast
  exact parses_of_accepts haccepts

end

/-- `a == 1`, in `n` pairs of parentheses. -/
def comparisonTokens : ℕ → List SqlToken
  | 0 => [spelt "a" .identifier] ++ ([spelt "==" (.operator .eq)]
      ++ [spelt "1" (.literal .integer)])
  | n + 1 =>
    spelt "(" (.symbol .lparen) :: (comparisonTokens n ++ [spelt ")" (.symbol .rparen)])

/-- What it stands for. -/
def comparison : ExprNode :=
  .binaryExpr .eq (.identifier (spelt "a" .identifier)) (.literal (spelt "1" (.literal .integer)))

theorem grouped_comparison : ∀ n, Grouped 0 comparison (comparisonTokens n)
  | 0 => by
    have ho : OperatorTokens .eq .eq [spelt "==" (.operator .eq)] := .single rfl
    exact .comparison ho (Or.inl rfl) (Nat.zero_le _) (.identifier rfl) (.literal rfl)
  | n + 1 => .paren rfl rfl (grouped_comparison n)

/-- The tokens of `DELETE FROM t` in front of a condition. -/
def deleteTokens (w : List SqlToken) : List SqlToken :=
  [spelt "delete" (.keyword .delete), spelt "from" (.keyword .from_), spelt "t" .identifier,
    spelt "where" (.keyword .where_)] ++ w

/-- What they stand for. -/
def deleteStatement (e : ExprNode) : Statement :=
  .delete { table := { tableName := spelt "t" .identifier }, where_ := some e }

theorem hasWhere_deleteTokens (e : ExprNode) (w : List SqlToken) :
    HasWhere e w (deleteStatement e) (deleteTokens w) :=
  .delete (d := spelt "delete" (.keyword .delete)) (f := spelt "from" (.keyword .from_))
    (v := spelt "where" (.keyword .where_)) rfl rfl (.plain (t := spelt "t" .identifier) rfl) rfl

/-- `DELETE FROM t WHERE (a == 1)`. -/
theorem parses_grouped_once : Parses (deleteTokens (comparisonTokens 1))
    (deleteStatement comparison) ↔ ClosesLast (comparisonTokens 1) :=
  parses_grouped_iff (grouped_comparison 1) (hasWhere_deleteTokens _ _) .plain

/-- `DELETE FROM t WHERE ((a == 1))` is refused. -/
theorem not_parses_grouped : ¬ ∀ (e : ExprNode) (w body ts : List SqlToken) (stmt : Statement),
    Grouped 0 e w → HasWhere e w stmt body → InputOf body ts → Parses ts stmt := by
  intro h
  have hwhere := hasWhere_deleteTokens comparison (comparisonTokens 2)
  have hparses := h _ _ _ _ _ (grouped_comparison 2) hwhere .plain
  have hlast := closesLast_of_parses (grouped_comparison 2) hwhere .plain hparses
  exact hlast (spelt ")" (.symbol .rparen)) (by simp [comparisonTokens]) rfl

/-! ## Columns and indexes that are created -/

/-- The keyword of a type. -/
def IsTypeKeyword (t : SqlToken) : Prop :=
  ∃ k ∈ [SqlKeyword.string, .integer, .real, .char, .bool, .null], t.detail = .keyword k

/-- **The tokens of constraints**, in any order. -/
inductive ConstraintTokens : List SqlToken → Prop
  | nil : ConstraintTokens []
  | notNull {n u : SqlToken} {cs : List SqlToken} (hn : n.detail = .keyword .not)
      (hu : u.detail = .keyword .null) (h : ConstraintTokens cs) : ConstraintTokens (n :: u :: cs)
  | unique {u : SqlToken} {cs : List SqlToken} (hu : u.detail = .keyword .unique)
      (h : ConstraintTokens cs) : ConstraintTokens (u :: cs)
  | primaryKey {p k : SqlToken} {cs : List SqlToken} (hp : p.detail = .keyword .primary)
      (hk : k.detail = .keyword .key) (h : ConstraintTokens cs) : ConstraintTokens (p :: k :: cs)
  | autoincrement {a : SqlToken} {cs : List SqlToken} (ha : a.detail = .keyword .autoincrement)
      (h : ConstraintTokens cs) : ConstraintTokens (a :: cs)

/-- The tokens of a column. -/
inductive ColumnDefTokens : ColumnDefinition → List SqlToken → Prop
  | intro {name type : SqlToken} {constraints : List SqlToken} (hname : IsIdentifier name)
      (htype : IsTypeKeyword type) (h : ConstraintTokens constraints) :
      ColumnDefTokens { name, type, constraints } (name :: type :: constraints)

/-- **A rendering of a table or of an index** that is created. An index is unique if
there is a `UNIQUE`. -/
inductive Creates : Statement → List SqlToken → Prop
  | table {table : TableIdentifier} {columns : List ColumnDefinition} {c t lp rp : SqlToken}
      {tw w : List SqlToken} (hc : c.detail = .keyword .create) (ht : t.detail = .keyword .table)
      (htable : TableTokens table tw) (hlp : lp.detail = .symbol .lparen)
      (hw : Commas ColumnDefTokens columns w) (hrp : rp.detail = .symbol .rparen) :
      Creates (.createTable { table, columns }) (c :: t :: (tw ++ lp :: (w ++ [rp])))
  | index {table : TableIdentifier} {name column c i o lp rp : SqlToken} {tw : List SqlToken}
      (hc : c.detail = .keyword .create) (hi : i.detail = .keyword .index)
      (hname : IsIdentifier name) (ho : o.detail = .keyword .on_) (ht : TableTokens table tw)
      (hlp : lp.detail = .symbol .lparen) (hcolumn : IsIdentifier column)
      (hrp : rp.detail = .symbol .rparen) :
      Creates (.createIndex
          { table, indexName := name, columnName := column, isUnique := some false })
        (c :: i :: name :: o :: (tw ++ [lp, column, rp]))
  | uniqueIndex {table : TableIdentifier} {name column c u i o lp rp : SqlToken}
      {tw : List SqlToken} (hc : c.detail = .keyword .create) (hu : u.detail = .keyword .unique)
      (hi : i.detail = .keyword .index) (hname : IsIdentifier name)
      (ho : o.detail = .keyword .on_) (ht : TableTokens table tw)
      (hlp : lp.detail = .symbol .lparen) (hcolumn : IsIdentifier column)
      (hrp : rp.detail = .symbol .rparen) :
      Creates (.createIndex
          { table, indexName := name, columnName := column, isUnique := some true })
        (c :: u :: i :: name :: o :: (tw ++ [lp, column, rp]))

/-- **A table without constraints, or a unique index.** -/
def Unconstrained : Statement → Prop
  | .createTable stmt => ∀ column ∈ stmt.columns, column.constraints = []
  | .createIndex stmt => stmt.isUnique = some true
  | _ => False

section

variable {s s' : SqlParser} {fuel : ℕ} {after cs : List SqlToken}

/-- A token that ends a column. -/
def EndsColumn (t : SqlToken) : Prop := t.detail = .symbol .comma ∨ t.detail = .symbol .rparen

instance : DecidablePred EndsColumn := fun _ => inferInstanceAs (Decidable (_ ∨ _))

/-- Constraints have no token that ends a column. -/
theorem ConstraintTokens.not_endsColumn (h : ConstraintTokens cs) : ∀ t ∈ cs, ¬ EndsColumn t := by
  have hkeyword : ∀ {t : SqlToken} {k : SqlKeyword}, t.detail = .keyword k → ¬ EndsColumn t := by
    rintro t k ht (h | h) <;> cases ht.symm.trans h
  induction h with
  | nil => exact fun t ht => absurd ht List.not_mem_nil
  | notNull hn hu _ ih =>
    exact List.forall_mem_cons.mpr ⟨hkeyword hn, List.forall_mem_cons.mpr ⟨hkeyword hu, ih⟩⟩
  | unique hu _ ih => exact List.forall_mem_cons.mpr ⟨hkeyword hu, ih⟩
  | primaryKey hp hk _ ih =>
    exact List.forall_mem_cons.mpr ⟨hkeyword hp, List.forall_mem_cons.mpr ⟨hkeyword hk, ih⟩⟩
  | autoincrement ha _ ih => exact List.forall_mem_cons.mpr ⟨hkeyword ha, ih⟩

/-- The test for the end of a column. -/
theorem ifEndsColumn_bind {α : Type} {t : SqlToken} {ts : List SqlToken} (h : s.rest = t :: ts)
    (x y : Parse α) :
    (matches_ (.symbol .comma) >>= fun comma => matches_ (.symbol .rparen) >>= fun rparen =>
      if (comma || rparen) = true then x else y) s
      = if EndsColumn t then x s else y s := by
  rw [matches_bind h, matches_bind h]
  by_cases ht : EndsColumn t
  · rw [if_pos ht, if_pos (by simpa [EndsColumn] using ht)]
  · rw [if_neg ht, if_neg (by simpa [EndsColumn] using ht)]

/-- **The constraints that are read** are the tokens in front of the cursor. -/
theorem parseConstraints_eq_ok : ∀ {fuel : ℕ} {s s' : SqlParser} {cs : List SqlToken},
    parseConstraints fuel s = .ok cs s' →
      s.rest = cs ++ s'.rest ∧ ∀ c ∈ cs, ¬ EndsColumn c := by
  intro fuel
  induction fuel with
  | zero => exact fun h => nomatch h
  | succ fuel ih =>
    intro s s' cs h
    unfold parseConstraints at h
    cases hrest : s.rest with
    | nil =>
      obtain ⟨t, s₁, ht, -⟩ := bind_eq_ok h
      unfold current at ht
      rw [hrest] at ht
      cases ht
    | cons t ts =>
      rw [current_bind hrest, ifEndsColumn_bind hrest] at h
      split_ifs at h with hends hkeyword hconstraint
      · obtain ⟨rfl, rfl⟩ := EStateM.Result.ok.inj h
        exact ⟨hrest.symm, fun c hc => absurd hc List.not_mem_nil⟩
      · cases h
      · cases h
      · obtain ⟨z, ts', hz, hne, heq⟩ := advanceOrThrow_shape (not_threw_ok h)
        obtain ⟨rfl, rfl⟩ := List.cons.inj (hz.symm.trans hrest)
        rw [heq] at h
        obtain ⟨constraints, s₁, hcs, h⟩ := bind_eq_ok h
        obtain ⟨rfl, rfl⟩ := EStateM.Result.ok.inj h
        obtain ⟨hsplit, hall⟩ := ih hcs
        rw [rest_next hz hne] at hsplit
        rw [hsplit]
        exact ⟨rfl, List.forall_mem_cons.mpr ⟨hends, hall⟩⟩

/-- **A column in front of a token that ends it**: what is read behind the type is
not all of what is there. -/
theorem constraints_eq_nil_of_parseColumnDef {name type x : SqlToken} (hname : IsIdentifier name)
    (hcs : ∀ c ∈ cs, ¬ EndsColumn c) (hx : EndsColumn x)
    (hrest : s.rest = name :: type :: (cs ++ x :: after))
    (h : parseColumnDef fuel s = .ok { name, type, constraints := cs } s') :
    cs = [] ∧ s' = s.next.next := by
  have htype : s.next.rest = type :: (cs ++ x :: after) := rest_next hrest (List.cons_ne_nil _ _)
  have hne : cs ++ x :: after ≠ [] := List.append_ne_nil_of_right_ne_nil _ (List.cons_ne_nil _ _)
  have hend : s.next.next.rest = cs ++ x :: after := rest_next htype hne
  unfold parseColumnDef at h
  rw [matchTypeOrThrow_bind hrest hname.type, current_bind hrest,
    advanceOrThrow_bind hrest (List.cons_ne_nil _ _), current_bind htype,
    advanceOrThrow_bind htype hne] at h
  cases cs with
  | nil =>
    rw [ifEndsColumn_bind hend, if_pos hx] at h
    exact ⟨rfl, (EStateM.Result.ok.inj h).2.symm⟩
  | cons c cs =>
    exfalso
    rw [ifEndsColumn_bind hend, if_neg (hcs c List.mem_cons_self)] at h
    have hne' : cs ++ x :: after ≠ [] :=
      List.append_ne_nil_of_right_ne_nil _ (List.cons_ne_nil _ _)
    rw [advanceOrThrow_bind hend hne'] at h
    obtain ⟨constraints, s₁, hconstraints, h⟩ := bind_eq_ok h
    obtain ⟨hdef, rfl⟩ := EStateM.Result.ok.inj h
    obtain rfl : constraints = c :: cs := (ColumnDefinition.mk.inj hdef).2.2
    -- as many tokens have been moved over as there are, after one of them was passed
    obtain ⟨hsplit, hall⟩ := parseConstraints_eq_ok hconstraints
    rw [rest_next hend hne'] at hsplit
    have hsplit : cs ++ x :: after = c :: cs ++ s₁.rest := hsplit
    have hread : (cs ++ x :: after).take (cs.length + 1) = c :: cs := by
      rw [hsplit]
      exact List.take_left' rfl
    have hthere : (cs ++ x :: after).take (cs.length + 1) = cs ++ [x] := by
      rw [List.take_append, List.take_of_length_le (Nat.le_succ _), Nat.add_sub_cancel_left]
      rfl
    refine hall x ?_ hx
    rw [← hread, hthere]
    exact List.mem_append_right cs List.mem_cons_self

/-- A column without constraints is read. -/
theorem parseColumnDef_tokens {name type x : SqlToken} (hname : IsIdentifier name)
    (hx : EndsColumn x) (hrest : s.rest = name :: type :: x :: after) :
    parseColumnDef fuel s = .ok { name, type } s.next.next := by
  have htype : s.next.rest = type :: x :: after := rest_next hrest (List.cons_ne_nil _ _)
  have hend : s.next.next.rest = x :: after := rest_next htype (List.cons_ne_nil _ _)
  unfold parseColumnDef
  rw [matchTypeOrThrow_bind hrest hname.type, current_bind hrest,
    advanceOrThrow_bind hrest (List.cons_ne_nil _ _), current_bind htype,
    advanceOrThrow_bind htype (List.cons_ne_nil _ _), ifEndsColumn_bind hend, if_pos hx]
  rfl

/-- The loop over the columns after one of them. -/
def parseMoreColumns (column : ColumnDefinition) (fuel : ℕ) : Parse (List ColumnDefinition) := do
  let stop ← matches_ (.symbol .rparen)
  let _ ← advance
  if stop then pure [column]
  else do
    let columns ← parseColumnDefs fuel
    pure (column :: columns)

theorem parseMoreColumns_rparen {column : ColumnDefinition} {rp : SqlToken}
    (hrp : rp.detail = .symbol .rparen) (h : s.rest = rp :: after) :
    parseMoreColumns column fuel s = .ok [column] s.next := by
  unfold parseMoreColumns
  rw [matches_bind h, advance_bind, hrp]
  rfl

theorem parseMoreColumns_comma {column : ColumnDefinition} {c : SqlToken}
    (hc : c.detail = .symbol .comma) (h : s.rest = c :: after) :
    parseMoreColumns column fuel s
      = (parseColumnDefs fuel >>= fun columns => pure (column :: columns)) s.next := by
  unfold parseMoreColumns
  rw [matches_bind h, advance_bind, hc]
  rfl

/-- The first column that is returned is the one that has been read. -/
theorem parseColumnDefs_eq_ok {column : ColumnDefinition} {columns : List ColumnDefinition}
    (h : parseColumnDefs (fuel + 1) s = .ok (column :: columns) s') :
    ∃ s₁, parseColumnDef fuel s = .ok column s₁
      ∧ parseMoreColumns column fuel s₁ = .ok (column :: columns) s' := by
  obtain ⟨column', s₁, hdef, h⟩ := bind_eq_ok h
  have hmore : parseMoreColumns column' fuel s₁ = .ok (column :: columns) s' := h
  obtain ⟨stop, s₂, -, h⟩ := bind_eq_ok h
  obtain ⟨moved, s₃, -, h⟩ := bind_eq_ok h
  have hcolumn : column' = column := by
    split_ifs at h
    · exact (List.cons.inj (EStateM.Result.ok.inj h).1).1
    · obtain ⟨columns', s₄, -, h⟩ := bind_eq_ok h
      exact (List.cons.inj (EStateM.Result.ok.inj h).1).1
  subst hcolumn
  exact ⟨s₁, hdef, hmore⟩

/-- **The columns of a table that are read as they are** have no constraints. -/
theorem constraints_eq_nil_of_parseColumnDefs {columns : List ColumnDefinition} {rp : SqlToken}
    (hw : Commas ColumnDefTokens columns w) (hrp : rp.detail = .symbol .rparen) :
    ∀ {fuel : ℕ} {s s' : SqlParser}, s.rest = w ++ rp :: after →
      parseColumnDefs fuel s = .ok columns s' → ∀ column ∈ columns, column.constraints = [] := by
  induction hw with
  | @single column w hcolumn =>
    intro fuel s s' hrest h
    cases fuel with
    | zero => cases h
    | succ fuel =>
      obtain ⟨hname, -, hcs⟩ := hcolumn
      obtain ⟨s₁, hdef, -⟩ := parseColumnDefs_eq_ok h
      obtain ⟨rfl, -⟩ := constraints_eq_nil_of_parseColumnDef hname hcs.not_endsColumn
        (Or.inr hrp) hrest hdef
      exact List.forall_mem_singleton.mpr rfl
  | @cons column columns w ws c hcolumn hc hs ih =>
    intro fuel s s' hrest h
    cases fuel with
    | zero => cases h
    | succ fuel =>
      obtain ⟨hname, -, hcs⟩ := hcolumn
      obtain ⟨s₁, hdef, hmore⟩ := parseColumnDefs_eq_ok h
      rw [List.append_assoc] at hrest
      obtain ⟨rfl, rfl⟩ := constraints_eq_nil_of_parseColumnDef hname hcs.not_endsColumn
        (Or.inl hc) hrest hdef
      have hcomma := rest_next (rest_next hrest (List.cons_ne_nil _ _)) (List.cons_ne_nil _ _)
      rw [parseMoreColumns_comma hc hcomma] at hmore
      obtain ⟨columns', s₂, hcolumns, hmore⟩ := bind_eq_ok hmore
      obtain rfl := (List.cons.inj (EStateM.Result.ok.inj hmore).1).2
      have hnext := rest_next hcomma (List.append_ne_nil_of_right_ne_nil _ (List.cons_ne_nil _ _))
      exact List.forall_mem_cons.mpr ⟨rfl, ih hnext hcolumns⟩

/-- **The columns of a table without constraints are read.** -/
theorem returns_parseColumnDefs {columns : List ColumnDefinition} {rp : SqlToken}
    (hw : Commas ColumnDefTokens columns w) (hrp : rp.detail = .symbol .rparen) :
    ∀ {s : SqlParser}, s.rest = w ++ rp :: after →
      (∀ column ∈ columns, column.constraints = []) →
        Returns parseColumnDefs s columns (skip (w ++ [rp]) s) := by
  induction hw with
  | @single column w hcolumn =>
    intro s hrest hnone
    obtain ⟨hname, -, -⟩ := hcolumn
    obtain rfl := hnone _ List.mem_cons_self
    refine returns_of_succ ⟨0, fun fuel _ => ?_⟩
    have hlast := rest_next (rest_next hrest (List.cons_ne_nil _ _)) (List.cons_ne_nil _ _)
    refine (bind_ok (parseColumnDef_tokens hname (Or.inr hrp) hrest)).trans ?_
    exact parseMoreColumns_rparen hrp hlast
  | @cons column columns w ws c hcolumn hc hs ih =>
    intro s hrest hnone
    obtain ⟨hname, -, -⟩ := hcolumn
    obtain rfl := hnone _ List.mem_cons_self
    rw [List.append_assoc] at hrest
    have hcomma := rest_next (rest_next hrest (List.cons_ne_nil _ _)) (List.cons_ne_nil _ _)
    have hnext := rest_next hcomma (List.append_ne_nil_of_right_ne_nil _ (List.cons_ne_nil _ _))
    obtain ⟨n, hcolumns⟩ := ih hnext fun column h => hnone column (List.mem_cons_of_mem _ h)
    refine returns_of_succ ⟨n, fun fuel hfuel => ?_⟩
    refine (bind_ok (parseColumnDef_tokens hname (Or.inl hc) hrest)).trans ?_
    refine (parseMoreColumns_comma hc hcomma).trans ?_
    rw [bind_ok (hcolumns fuel hfuel)]
    rfl

/-- **A `CREATE TABLE` up to its columns.** -/
theorem parseCreateTable_tokens {table : TableIdentifier} {t lp : SqlToken} {tw : List SqlToken}
    (ht : t.detail = .keyword .table) (htable : TableTokens table tw)
    (hlp : lp.detail = .symbol .lparen) (hne : after ≠ [])
    (hrest : s.rest = t :: (tw ++ lp :: after)) :
    parseCreateTable fuel s = (parseColumnDefs fuel >>= fun columns => pure { table, columns })
      (skip (t :: (tw ++ [lp])) s) := by
  have hne' : tw ++ lp :: after ≠ [] := List.append_ne_nil_of_left_ne_nil htable.ne_nil _
  have hnext : s.next.rest = tw ++ lp :: after := rest_next hrest hne'
  have hparen : (skip tw s.next).rest = lp :: after := rest_skip hnext (List.cons_ne_nil _ _)
  unfold parseCreateTable
  rw [matchOrThrow_bind hrest ht, advanceOrThrow_bind hrest hne',
    bind_ok (parseTableIdentifier_tokens htable hnext (noPeriod_lparen hlp)),
    ifMatches_bind hparen, if_pos hlp, advanceOrThrow_bind hparen hne]
  simp only [skip_append, skip_cons, skip_nil]

theorem parseStatement_createTable {table : TableIdentifier} {c t lp : SqlToken}
    {tw : List SqlToken} (hc : c.detail = .keyword .create) (ht : t.detail = .keyword .table)
    (htable : TableTokens table tw) (hlp : lp.detail = .symbol .lparen) (hne : after ≠ [])
    (hrest : s.rest = c :: t :: (tw ++ lp :: after)) (fuel : ℕ) :
    parseStatement fuel s = (parseColumnDefs fuel >>= fun columns =>
      pure (.createTable { table, columns })) (skip (c :: t :: (tw ++ [lp])) s) := by
  have hnext : s.next.rest = t :: (tw ++ lp :: after) := rest_next hrest (List.cons_ne_nil _ _)
  rw [parseStatement_eq hrest]
  simp only [hc, ht, parseCreate_eq hrest]
  show (Statement.createTable <$> parseCreateTable fuel : Parse Statement) s.next = _
  rw [map_eq_pure_bind, bind_congr (parseCreateTable_tokens ht htable hlp hne hnext)]
  simp only [bind_assoc, pure_bind]
  rfl

/-- What is left behind the parenthesis of the columns. -/
theorem rest_createTable {c t lp : SqlToken} {tw : List SqlToken} (hne : after ≠ [])
    (hrest : s.rest = c :: t :: (tw ++ lp :: after)) :
    (skip (c :: t :: (tw ++ [lp])) s).rest = after := by
  have hsplit : s.rest = (c :: t :: (tw ++ [lp])) ++ after := by simp [hrest]
  exact rest_skip hsplit hne

/-- What the parser returns is determined. -/
theorem Parses.unique {stmt' : Statement} (h : Parses ts stmt) (h' : Parses ts stmt') :
    stmt = stmt' := by
  obtain ⟨n, h⟩ := h
  obtain ⟨n', h'⟩ := h'
  exact Except.ok.inj ((h (max n n') (le_max_left n n')).symm.trans
    (h' (max n n') (le_max_right n n')))

/-- An index is in the grammar; what it says of `UNIQUE` is not set without one. -/
theorem parses_createIndex {table : TableIdentifier} {name column c i o lp rp : SqlToken}
    {tw tail : List SqlToken} (hc : c.detail = .keyword .create) (hi : i.detail = .keyword .index)
    (hname : IsIdentifier name) (ho : o.detail = .keyword .on_) (ht : TableTokens table tw)
    (hlp : lp.detail = .symbol .lparen) (hcolumn : IsIdentifier column)
    (hrp : rp.detail = .symbol .rparen) (htail : AtEnd tail) :
    Parses (c :: i :: name :: o :: (tw ++ [lp, column, rp]) ++ tail)
      (.createIndex { table, indexName := name, columnName := column, isUnique := none }) := by
  have hclose : Closes (rp :: tail) := ⟨rp, tail, rfl, hrp⟩
  have haccepts := Accepts.intro (Reads.createIndex hc hi hname ho ht hlp hcolumn hclose)
    (htail.trailing_rparen hrp)
  simp only [List.cons_append, List.append_assoc, List.nil_append] at haccepts ⊢
  exact parses_of_accepts haccepts

/-- **A table that is returned as it is** has no constraints. -/
theorem constraints_eq_nil_of_parses {table : TableIdentifier} {columns : List ColumnDefinition}
    {c t lp rp : SqlToken} {tw tail : List SqlToken} (hc : c.detail = .keyword .create)
    (ht : t.detail = .keyword .table) (htable : TableTokens table tw)
    (hlp : lp.detail = .symbol .lparen) (hw : Commas ColumnDefTokens columns w)
    (hrp : rp.detail = .symbol .rparen)
    (h : Parses (c :: t :: (tw ++ lp :: (w ++ rp :: tail))) (.createTable { table, columns })) :
    ∀ column ∈ columns, column.constraints = [] := by
  obtain ⟨fuel, hrun⟩ := h
  have hrun := hrun fuel le_rfl
  have hne : w ++ rp :: tail ≠ [] := List.append_ne_nil_of_right_ne_nil _ (List.cons_ne_nil _ _)
  unfold SqlParser.run at hrun
  split at hrun
  · rename_i parsed s' hparse
    obtain rfl := Except.ok.inj hrun
    obtain ⟨stmt, s₁, hstmt, hparse⟩ := bind_eq_ok hparse
    obtain ⟨-, s₂, -, hparse⟩ := bind_eq_ok hparse
    obtain rfl := (EStateM.Result.ok.inj hparse).1
    rw [parseStatement_createTable hc ht htable hlp hne rfl] at hstmt
    obtain ⟨columns', s₃, hcolumns, hstmt⟩ := bind_eq_ok hstmt
    have heq := (EStateM.Result.ok.inj hstmt).1
    obtain rfl : columns' = columns :=
      (CreateTableStatement.mk.inj (Statement.createTable.inj heq)).2
    exact constraints_eq_nil_of_parseColumnDefs hw hrp (rest_createTable hne rfl) hcolumns
  · cases hrun

/-- A table without constraints is read, up to the end of the input. -/
theorem returns_createTable {table : TableIdentifier} {columns : List ColumnDefinition}
    {c t lp rp : SqlToken} {tw tail : List SqlToken} (hc : c.detail = .keyword .create)
    (ht : t.detail = .keyword .table) (htable : TableTokens table tw)
    (hlp : lp.detail = .symbol .lparen) (hw : Commas ColumnDefTokens columns w)
    (hrp : rp.detail = .symbol .rparen) (htail : AtEnd tail)
    (hnone : ∀ column ∈ columns, column.constraints = [])
    (hrest : s.rest = c :: t :: (tw ++ lp :: (w ++ rp :: tail))) :
    ∃ s', Returns parseStatement s (.createTable { table, columns }) s' ∧ EndsAt s'.rest := by
  have hne : w ++ rp :: tail ≠ [] := List.append_ne_nil_of_right_ne_nil _ (List.cons_ne_nil _ _)
  have hcolumns := rest_createTable hne hrest
  obtain ⟨n, hread⟩ := returns_parseColumnDefs hw hrp hcolumns hnone
  refine ⟨skip (w ++ [rp]) (skip (c :: t :: (tw ++ [lp])) s), ⟨n, fun fuel hfuel => ?_⟩, ?_⟩
  · rw [parseStatement_createTable hc ht htable hlp hne hrest, bind_ok (hread fuel hfuel)]
    rfl
  · -- the cursor is behind the parenthesis, or on it when it is the last token
    rcases htail with rfl | ⟨x, hx, rfl⟩
    · rw [rest_skip_last hcolumns]
      exact Or.inr (Or.inl ⟨rp, rfl⟩)
    · have hsplit : w ++ [rp, x] = (w ++ [rp]) ++ [x] := by simp
      rw [rest_skip (hcolumns.trans hsplit) (List.cons_ne_nil _ _)]
      exact Or.inr (Or.inl ⟨x, rfl⟩)

/-- **A table or an index that is created is returned as it is** exactly if no column
of the table has a constraint, and if the index is unique. -/
theorem parses_created_iff (h : Creates stmt body) (hts : InputOf body ts) :
    Parses ts stmt ↔ Unconstrained stmt := by
  obtain ⟨tail, htail, rfl⟩ := hts.exists_atEnd
  cases h with
  | table hc ht htable hlp hw hrp =>
    simp only [List.cons_append, List.append_assoc, List.nil_append]
    refine ⟨constraints_eq_nil_of_parses hc ht htable hlp hw hrp, fun hnone => ?_⟩
    obtain ⟨s', ⟨n, hread⟩, hends⟩ :=
      returns_createTable (s := ⟨[], _⟩) hc ht htable hlp hw hrp htail hnone rfl
    refine ⟨n, fun fuel hfuel => ?_⟩
    rw [SqlParser.run, SqlParser.parse, bind_ok (hread fuel hfuel),
      bind_ok (checkTrailing_ok hends)]
    rfl
  | index hc hi hname ho ht hlp hcolumn hrp =>
    refine iff_of_false (fun h => ?_) (fun h => by cases h)
    -- the field is not set
    have hnone := parses_createIndex hc hi hname ho ht hlp hcolumn hrp htail
    have heq := Statement.createIndex.inj (h.unique hnone)
    exact absurd (congrArg CreateIndexStatement.isUnique heq) (Option.some_ne_none _)
  | @uniqueIndex table name column c u i o lp rp tw hc hu hi hname ho ht hlp hcolumn hrp =>
    refine iff_of_true ?_ rfl
    have hclose : Closes (rp :: tail) := ⟨rp, tail, rfl, hrp⟩
    have haccepts := Accepts.intro
      (Reads.createUniqueIndex hc hu hi hname ho ht hlp hcolumn hclose) (htail.trailing_rparen hrp)
    simp only [List.cons_append, List.append_assoc, List.nil_append] at haccepts ⊢
    exact parses_of_accepts haccepts

end

/-- The tokens of `CREATE TABLE t (a INTEGER)`, with constraints of the column. -/
def createTokens (constraints : List SqlToken) : List SqlToken :=
  spelt "create" (.keyword .create) :: spelt "table" (.keyword .table)
    :: ([spelt "t" .identifier] ++ spelt "(" (.symbol .lparen)
      :: ((spelt "a" .identifier :: spelt "integer" (.keyword .integer) :: constraints)
        ++ [spelt ")" (.symbol .rparen)]))

/-- What they stand for. -/
def createStatement (constraints : List SqlToken) : Statement :=
  .createTable {
    table := { tableName := spelt "t" .identifier }
    columns := [{
      name := spelt "a" .identifier
      type := spelt "integer" (.keyword .integer)
      constraints }] }

theorem creates_createTokens {constraints : List SqlToken} (h : ConstraintTokens constraints) :
    Creates (createStatement constraints) (createTokens constraints) := by
  have htype : IsTypeKeyword (spelt "integer" (.keyword .integer)) := ⟨.integer, by simp, rfl⟩
  have hcolumn : ColumnDefTokens _
      (spelt "a" .identifier :: spelt "integer" (.keyword .integer) :: constraints) :=
    .intro rfl htype h
  exact .table rfl rfl (.plain (t := spelt "t" .identifier) rfl) rfl (.single hcolumn) rfl

/-- `CREATE TABLE t (a INTEGER);`. -/
theorem parses_created_table : Parses (createTokens [] ++ [spelt ";" (.symbol .semicolon)])
    (createStatement []) ↔ Unconstrained (createStatement []) := by
  have hsemicolon : IsSemicolon (spelt ";" (.symbol .semicolon)) := rfl
  exact parses_created_iff (creates_createTokens .nil) (.semicolon hsemicolon)

/-- The constraint of `CREATE TABLE t (a INTEGER UNIQUE)` gets lost. -/
theorem not_parses_created : ¬ ∀ (stmt : Statement) (body ts : List SqlToken),
    Creates stmt body → InputOf body ts → Parses ts stmt := by
  intro h
  have hunique : ConstraintTokens [spelt "unique" (.keyword .unique)] := .unique rfl .nil
  have hcolumn : ColumnDefTokens _ [spelt "a" .identifier, spelt "integer" (.keyword .integer),
      spelt "unique" (.keyword .unique)] := .intro rfl ⟨.integer, by simp, rfl⟩ hunique
  have hnone := constraints_eq_nil_of_parses rfl rfl
    (.plain (t := spelt "t" .identifier) rfl) rfl (.single hcolumn) rfl
    (h _ _ _ (creates_createTokens hunique) .plain) _ List.mem_cons_self
  exact List.cons_ne_nil _ _ hnone

end Sql
