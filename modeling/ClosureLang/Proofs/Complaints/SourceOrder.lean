import ClosureLang.Proofs.Complaints.Waiting
import ClosureLang.Proofs.Grammar.Complaints
import ClosureLang.Proofs.Recovery.Boundaries
import ClosureLang.Proofs.Scanning.Lines

namespace ClosureLang

/-- Whether the complaint is about an assignment to what is no name. -/
def SyntaxError.misassigns : SyntaxError → Bool
  | .invalidAssignmentTarget _ => true
  | _ => false

namespace Grammar

/-- The lines of tokens never decrease. -/
def Downward (ts : List Token) : Prop :=
  ts.Pairwise fun t t' => t.line ≤ t'.line

/-- Every complaint is on the line of one of the tokens. -/
def Placed (ts : List Token) (errors : List SyntaxError) : Prop :=
  ∀ x ∈ errors, ∃ t ∈ ts, x.line = t.line

/-- The complaints about `read`, the last one first: each is about a token that no earlier complaint
lies behind, or about an assignment that only complaints about its own value lie behind. -/
inductive Noted (read : List Token) : List SyntaxError → Prop where
  | nil : Noted read []
  | about {older : List SyntaxError} {x : SyntaxError} (h : Noted read older)
      (hx : ∃ t ∈ read, x.line = t.line) (hn : x.misassigns = false)
      (ho : ∀ y ∈ older, y.line ≤ x.line) : Noted read (x :: older)
  | target {older earlier own : List SyntaxError} {line : Nat} (h : Noted read older)
      (hm : Misassigned read line own) (hd : older.reverse = earlier ++ own)
      (ho : ∀ y ∈ earlier, y.line ≤ line) :
      Noted read (.invalidAssignmentTarget line :: older)

variable {read : List Token} {errors : List SyntaxError} {t : Token}

theorem Misassigned.line_mem {ts : List Token} {line : Nat} {own : List SyntaxError}
    (h : Misassigned ts line own) : ∃ t ∈ ts, line = t.line := by
  obtain ⟨⟩ := h
  exact ⟨_, by simp, rfl⟩

theorem Noted.placed (h : Noted read errors) : Placed read errors := by
  induction h with
  | nil => exact fun x hx => absurd hx List.not_mem_nil
  | about _ hx _ _ ih => exact List.forall_mem_cons.mpr ⟨hx, ih⟩
  | target _ hm _ _ ih => exact List.forall_mem_cons.mpr ⟨hm.line_mem, ih⟩

theorem Noted.append (h : Noted read errors) (ts : List Token) : Noted (read ++ ts) errors := by
  induction h with
  | nil => exact .nil
  | about _ hx hn ho ih =>
    obtain ⟨t, ht, hl⟩ := hx
    exact ih.about ⟨t, List.mem_append_left ts ht, hl⟩ hn ho
  | target _ hm hd ho ih => exact ih.target (hm.append ts) hd ho

theorem Downward.le_last (h : Downward (read ++ [t])) {t' : Token} (ht : t' ∈ read ++ [t]) :
    t'.line ≤ t.line := by
  obtain ht | ht := List.mem_append.mp ht
  · exact (List.pairwise_append.mp h).2.2 t' ht t (List.mem_singleton_self t)
  · rw [List.mem_singleton.mp ht]

/-- A complaint about the token that is read lies behind no other. -/
theorem Noted.last (h : Noted (read ++ [t]) errors) (hs : Downward (read ++ [t]))
    {x : SyntaxError} (hx : x.line = t.line) (hn : x.misassigns = false) :
    Noted (read ++ [t]) (x :: errors) := by
  refine h.about ⟨t, by simp, hx⟩ hn fun y hy => ?_
  obtain ⟨t', ht', hl⟩ := h.placed y hy
  rw [hl, hx]
  exact hs.le_last ht'

/-- The tokens read and the complaints about them end with those of what waits and those given,
and the complaints in front are about the tokens in front. -/
def Stands (read : List Token) (errors : List SyntaxError) (n : Nat) (pending : List Pending)
    (us : List Token) (d : List SyntaxError) : Prop :=
  ∃ front ts d' earlier, Waits n pending ts d' ∧ read = front ++ ts ++ us ∧
    errors.reverse = earlier ++ d' ++ d ∧ Placed front earlier

/-- What was read and complained about at a position inside an expression. -/
def Expects (read : List Token) (errors : List SyntaxError) : Position → Prop
  | .operand _ pending => ∃ n, Stands read errors n pending [] []
  | .operator _ pending e =>
    ∃ n us d, Operand AnyLength 8 us e d ∧
      Stands read errors n pending us (overflow pending us ++ d)
  | .firstArgument _ pending callee =>
    ∃ n us d opening, Operand AnyLength 8 us callee d ∧ opening.kind = .leftParen ∧
      Stands read errors n pending (us ++ [opening]) (overflow pending us ++ d)
  | _ => True

/-- Where an expression starts nothing waits. -/
theorem Noted.stands (h : Noted read errors) : Stands read errors 0 [] [] [] :=
  ⟨read, [], [], errors.reverse, .nil, by simp, by simp, fun x hx =>
    h.placed x (List.mem_reverse.mp hx)⟩

end Grammar

namespace Builder

open Grammar

/-- The complaints of `b` are noted, and it stands where the tokens `read` lead. -/
def Tracks (b : Builder) (read : List Token) : Prop :=
  Noted read b.errors ∧ Expects read b.errors b.position

variable {b : Builder} {read : List Token} {t : Token} {use : Use} {pending : List Pending}
  {e : Expr} {s : Stmt}

theorem expects_afterDropping {errors : List SyntaxError} :
    Expects read errors (afterDropping t) := by
  unfold afterDropping
  split <;> trivial

theorem tracks_fail (h : Noted (read ++ [t]) b.errors) (hs : Downward (read ++ [t]))
    {x : SyntaxError} (hx : x.line = t.line) (hn : x.misassigns = false) :
    (b.fail x t).Tracks (read ++ [t]) :=
  ⟨h.last hs hx hn, expects_afterDropping⟩

theorem tracks_need {kind : TokenKind} {message : String} {next : Builder}
    (h : Noted (read ++ [t]) b.errors) (hs : Downward (read ++ [t]))
    (hn : t.kind = kind → next.Tracks (read ++ [t])) :
    (b.need kind message t next).Tracks (read ++ [t]) := by
  unfold need
  split
  next hk => exact hn hk
  next => exact tracks_fail h hs rfl rfl

theorem tracks_ite {p : Prop} [Decidable p] {b' : Builder} {ts : List Token}
    (h : p → b.Tracks ts) (h' : ¬ p → b'.Tracks ts) : (if p then b else b').Tracks ts := by
  split
  next hp => exact h hp
  next hp => exact h' hp

theorem noted_checkArguments (h : Noted (read ++ [t]) b.errors) (hs : Downward (read ++ [t])) :
    Noted (read ++ [t]) (b.checkArguments pending t).errors := by
  unfold checkArguments
  split
  · split
    · exact h.last hs rfl rfl
    · exact h
  · exact h

theorem tracks_atOperand {n : Nat} (h : Noted (read ++ [t]) b.errors)
    (hs : Downward (read ++ [t])) (hst : Stands read b.errors n pending [] []) :
    (b.atOperand use pending t).Tracks (read ++ [t]) := by
  obtain ⟨front, ts, d, earlier, hw, hr, he, hp⟩ := hst
  rw [List.append_nil] at hr he
  have hc : Noted (read ++ [t]) (b.checkArguments pending t).errors := noted_checkArguments h hs
  have hd : (b.checkArguments pending t).errors.reverse =
      earlier ++ d ++ overflow pending [t] := by
    rw [checkArguments_eq_complain]
    simp [complain, he]
  have operator {e : Expr} (ho : Operand AnyLength 8 [t] e []) :
      ((b.checkArguments pending t).moveTo (.operator use pending e)).Tracks (read ++ [t]) :=
    ⟨hc, n, [t], [], ho, front, ts, d, earlier, hw, by rw [hr], by
      simpa [moveTo] using hd, hp⟩
  have operand {n' : Nat} {p : Pending}
      (hw' : Waits n' (p :: pending) (ts ++ [t]) (d ++ overflow pending [t])) :
      ((b.checkArguments pending t).moveTo (.operand use (p :: pending))).Tracks (read ++ [t]) :=
    ⟨hc, n', front, ts ++ [t], _, earlier, hw', by simp [hr], by simpa [moveTo] using hd, hp⟩
  unfold atOperand
  dsimp only
  split
  iterate 5
    next hk => exact operator (.literal (by simp [constants, hk]))
  next hk => exact operator (.lookup hk)
  next hk => exact operand (hw.group hk)
  next hk => exact operand (hw.unary (by simp [prefixes, hk]))
  next hk => exact operand (hw.unary (by simp [prefixes, hk]))
  next => exact tracks_fail hc hs rfl rfl

theorem tracks_afterExpression (h : Noted (read ++ [t]) b.errors) (hs : Downward (read ++ [t])) :
    (b.afterExpression use e t).Tracks (read ++ [t]) := by
  cases use <;> exact tracks_need h hs fun _ => ⟨h, trivial⟩

/-- What a value to the right of an equals sign is complained about is what comes last. -/
theorem noted_target {front us target value : List Token} {eq : Token} {left v : Expr}
    {d₁ d₂ own earlier older : List SyntaxError} (h : Noted (read ++ [t]) older)
    (hs : Downward (read ++ [t])) (hd₁ : Excesses (us ++ target) d₁)
    (hl : Operand AnyLength 1 target left d₂) (hn : ∀ name line, left ≠ .lookup name line)
    (he : eq.kind = .equal) (hv : Expression AnyLength value v own) (hc : Closes t.kind)
    (hr : read = front ++ (us ++ target ++ eq :: value)) (hp : Placed front earlier)
    (hd : older.reverse = earlier ++ (d₁ ++ own)) :
    Noted (read ++ [t]) (.invalidAssignmentTarget eq.line :: older) := by
  have hread : read ++ [t] = front ++ us ++ target ++ eq :: (value ++ t :: []) := by simp [hr]
  have hm : Misassigned (read ++ [t]) eq.line own := by
    rw [hread]
    exact .mk hl hn he hv hc
  have hd' : older.reverse = (earlier ++ d₁) ++ own := by rw [hd, List.append_assoc]
  refine h.target hm hd' fun y hy => ?_
  have hy' : ∃ t' ∈ front ++ us ++ target, y.line = t'.line := by
    obtain hy | hy := List.mem_append.mp hy
    · obtain ⟨t', ht', hline⟩ := hp y hy
      exact ⟨t', by simp [ht'], hline⟩
    · obtain ⟨t', ht', rfl⟩ := hd₁ y hy
      exact ⟨t', by rw [List.append_assoc]; exact List.mem_append_right front ht', rfl⟩
  obtain ⟨t', ht', hline⟩ := hy'
  rw [hread] at hs
  rw [hline]
  exact (List.pairwise_append.mp hs).2.2 t' ht' eq List.mem_cons_self

theorem tracks_atEnd {n : Nat} {us : List Token} {d : List SyntaxError}
    (h : Noted (read ++ [t]) b.errors) (hs : Downward (read ++ [t]))
    (he : Operand AnyLength 8 us e d)
    (hst : Stands read b.errors n pending us (overflow pending us ++ d)) (hc : Closes t.kind) :
    (b.atEnd use pending e t).Tracks (read ++ [t]) := by
  obtain ⟨front, ts, d', earlier, hw, hr, herr, hp⟩ := hst
  have hended := hw.complete (he.filled (by omega) (Nat.le_succ_of_le hw.level_le))
  rw [List.append_assoc] at hr herr
  rw [List.append_assoc] at hended
  unfold atEnd
  split
  next => exact tracks_afterExpression h hs
  next e rest hcomplete =>
    rw [hcomplete] at hended
    obtain ⟨m, vs, opening, ws, d₁, d₂, hw', ho, hx, hts, hd⟩ := hended
    refine tracks_need h hs fun hk => ⟨h, m, _, _, .grouping ho hx hk, ?_⟩
    refine ⟨front, vs, d₁, earlier, hw', by simp [hr, hts], ?_, hp⟩
    rw [overflow_cons]
    simpa [moveTo, hd] using herr
  next callee done e rest hcomplete =>
    rw [hcomplete] at hended
    obtain ⟨m, vs, xs, opening, ws, d₁, d₂, d₃, hw', hf, ho, ha, hts, hd⟩ := hended
    refine tracks_ite (fun hk => ⟨h, 0, ?_⟩) fun _ => tracks_need h hs fun hk => ?_
    · refine ⟨front, _, _, earlier, .nextArgument hw' hf ho ha hk, by simp [hr, hts], ?_, hp⟩
      simpa [moveTo, hd] using herr
    · have hcall : Operand AnyLength 8 (xs ++ opening :: (ws ++ [t])) _ (d₂ ++ d₃) :=
        .call hf ho ha trivial hk
      refine ⟨h, m, _, _, hcall, front, vs, d₁, earlier, hw', by simp [hr, hts], ?_, hp⟩
      rw [overflow_append hf.ne_nil]
      simpa [moveTo, hd] using herr
  next line hcomplete =>
    rw [hcomplete] at hended
    obtain ⟨vs, target, eq, value, left, v, d₁, d₂, own, hx, hl, hn, hq, rfl, hv, hts, hd⟩ := hended
    rw [hts] at hr
    rw [hd] at herr
    exact ⟨noted_target h hs hx hl hn hq hv hc hr hp herr, expects_afterDropping⟩

theorem tracks_atOperator (h : Noted (read ++ [t]) b.errors) (hs : Downward (read ++ [t]))
    (hst : Expects read b.errors (.operator use pending e)) :
    (b.atOperator use pending e t).Tracks (read ++ [t]) := by
  obtain ⟨n, us, d, he, hst⟩ := hst
  have hstands := hst
  obtain ⟨front, ts, d', earlier, hw, hr, herr, hp⟩ := hst
  have hn : n ≤ 8 := Nat.le_succ_of_le hw.level_le
  -- the operators that bind more tightly than the one read take the operand first
  have settled (k : Nat) (hk : k ≤ 7) :
      ∃ n' ts' us' d₁ d₂, Waits n' (Pending.settle k e pending).2 ts' d₁ ∧ n' ≤ k ∧
        Operand AnyLength k us' (Pending.settle k e pending).1 d₂ ∧
        read ++ [t] = front ++ (ts' ++ us' ++ [t]) ++ [] ∧
        b.errors.reverse =
          earlier ++ (d₁ ++ overflow (Pending.settle k e pending).2 us' ++ d₂) ++ [] := by
    obtain ⟨n', ts', us', d₁, d₂, hw', hn', he', hts, hd⟩ := hw.settle he hn (by omega) hk
    refine ⟨n', ts', us', d₁, d₂, hw', hn', he', ?_, ?_⟩
    · rw [hr, ← hts]
      simp
    · rw [herr, ← hd]
      simp
  unfold atOperator
  split
  next hk => exact ⟨h, n, us, d, t, he, hk, front, ts, d', earlier, hw, by simp [hr], herr, hp⟩
  next hk =>
    obtain ⟨n', ts', us', d₁, d₂, hw', hn', he', hr', herr'⟩ := settled 0 (by omega)
    obtain rfl : n' = 0 := by omega
    exact ⟨h, 0, front, _, _, earlier, hw'.assign he'.of_zero hk, hr', herr', hp⟩
  next hparen hequal =>
    split
    next op hop =>
      obtain ⟨n', ts', us', d₁, d₂, hw', hn', he', hr', herr'⟩ :=
        settled op.level (Nat.le_of_lt (level_lt op))
      exact ⟨h, op.level + 1, front, _, _, earlier,
        hw'.joined hn' he' (operators_of_ofKind? hop), hr', herr', hp⟩
    next hop => exact tracks_atEnd h hs he hstands ⟨hparen, hequal, hop⟩

/-- Where an expression starts, nothing waits for the operand that `t` starts. -/
theorem tracks_atOperand_first (h : Noted read b.errors) (hs : Downward (read ++ [t])) :
    (b.atOperand use [] t).Tracks (read ++ [t]) :=
  tracks_atOperand (h.append [t]) hs h.stands

theorem tracks_atStatement (h : Noted read b.errors) (hs : Downward (read ++ [t])) :
    (b.atStatement t).Tracks (read ++ [t]) := by
  have h' := h.append [t]
  unfold atStatement
  split
  case h_4 => exact ⟨h', 0, h'.stands⟩
  case h_5 => exact tracks_ite (fun _ => ⟨h', trivial⟩) fun _ => ⟨h'.last hs rfl rfl, trivial⟩
  case h_7 => exact tracks_atOperand_first h hs
  all_goals exact ⟨h', trivial⟩

/-- The token at which a declaration starts keeps the complaints in order, and so do the tokens that
recovery drops. -/
theorem tracks_atDeclaration (h : Noted read b.errors) (hs : Downward (read ++ [t])) :
    (b.atDeclaration t).Tracks (read ++ [t]) := by
  unfold atDeclaration
  split
  case h_6 => exact tracks_atStatement h hs
  all_goals exact ⟨h.append [t], trivial⟩

theorem tracks_atForCondition {initial : Option Stmt} (h : Noted read b.errors)
    (hs : Downward (read ++ [t])) : (b.atForCondition initial t).Tracks (read ++ [t]) :=
  tracks_ite (fun _ => ⟨h.append [t], trivial⟩) fun _ => tracks_atOperand_first h hs

theorem tracks_afterStatement (s : Stmt) (opened : List Open) (h : Noted read b.errors)
    (hs : Downward (read ++ [t])) : (b.afterStatement t s opened).Tracks (read ++ [t]) := by
  induction opened generalizing s with
  | nil =>
    exact tracks_atDeclaration (b := { b with opened := [], statements := s :: b.statements }) h hs
  | cons construct rest ih =>
    cases construct with
    | block done =>
      exact tracks_atDeclaration (b := { b with opened := .block (s :: done) :: rest }) h hs
    | body head done =>
      exact tracks_atDeclaration (b := { b with opened := .body head (s :: done) :: rest }) h hs
    | forInitial => exact tracks_atForCondition (b := { b with opened := rest }) h hs
    | thenBranch condition =>
      unfold afterStatement
      exact tracks_ite (fun _ => ⟨h.append [t], trivial⟩) fun _ => ih _
    | elseBranch | loopBody | forBody => exact ih _

theorem tracks_atParameter {name : String} {line : Nat} {done : List String}
    (h : Noted (read ++ [t]) b.errors) (hs : Downward (read ++ [t])) :
    (b.atParameter name line done t).Tracks (read ++ [t]) := by
  unfold atParameter
  split
  · have hr : Noted (read ++ [t]) (b.report (.tooManyParameters maxItems t.line)).errors :=
      h.last hs rfl rfl
    exact tracks_need hr hs fun _ => ⟨hr, trivial⟩
  · exact tracks_need h hs fun _ => ⟨h, trivial⟩

/-- Reading a token keeps the complaints in the order of the source. -/
theorem tracks_feed (h : b.Tracks read) (hs : Downward (read ++ [t])) :
    (b.feed t).Tracks (read ++ [t]) := by
  obtain ⟨position, opened, ss, es⟩ := b
  obtain ⟨h, hx⟩ := h
  have h' := h.append [t]
  cases position with
  | declaration => exact tracks_atDeclaration h hs
  | statement => exact tracks_atStatement h hs
  | operand use pending => exact tracks_atOperand h' hs hx.choose_spec
  | operator use pending e => exact tracks_atOperator h' hs hx
  | firstArgument use pending callee =>
    obtain ⟨n, us, d, opening, hc, ho, front, ts, d', earlier, hw, hr, he, hp⟩ := hx
    refine tracks_ite (fun hk => ⟨h', n, us ++ [opening, t], d, ?_, ?_⟩) fun _ =>
      tracks_atOperand h' hs ⟨front, _, _, earlier, hw.firstArgument hc ho, ?_, ?_, hp⟩
    · exact .callEmpty hc ho trivial hk
    · refine ⟨front, ts, d', earlier, hw, ?_, ?_, hp⟩
      · simp [hr]
      · rw [overflow_append hc.ne_nil]
        exact he
    · simp [hr]
    · simp [he]
  | completed s => exact tracks_afterStatement s opened h hs
  | createRest name line =>
    exact tracks_ite (fun _ => ⟨h', 0, h'.stands⟩) fun _ =>
      tracks_need h' hs fun _ => ⟨h', trivial⟩
  | firstParameter name line =>
    exact tracks_ite (fun _ => ⟨h', trivial⟩) fun _ => tracks_atParameter h' hs
  | parameter name line done => exact tracks_atParameter h' hs
  | parameterRest name line done =>
    exact tracks_ite (fun _ => ⟨h', trivial⟩) fun _ => tracks_need h' hs fun _ => ⟨h', trivial⟩
  | forStart =>
    unfold feed
    dsimp only
    split
    · exact ⟨h', trivial⟩
    · exact ⟨h', trivial⟩
    · exact tracks_atOperand_first (b := ⟨.forStart, .forInitial :: opened, ss, es⟩) h hs
  | forCondition initial => exact tracks_atForCondition h hs
  | forIncrement initial condition =>
    exact tracks_ite (fun _ => ⟨h', trivial⟩) fun _ => tracks_atOperand_first h hs
  | resultStart line =>
    exact tracks_ite (fun _ => ⟨h', trivial⟩) fun _ => tracks_atOperand_first h hs
  | discard => exact ⟨h', expects_afterDropping⟩
  | skip =>
    unfold feed
    dsimp only
    split
    case h_8 => exact ⟨h', expects_afterDropping⟩
    all_goals exact tracks_atDeclaration (b := ⟨.skip, opened, ss, es⟩) h hs
  | ifOpen | loopOpen => exact tracks_need h' hs fun _ => ⟨h', 0, h'.stands⟩
  | createName | functionName | functionOpen | functionBrace | forOpen =>
    exact tracks_need h' hs fun _ => ⟨h', trivial⟩

theorem noted_finish (h : b.Tracks read) (hs : Downward (read ++ [t])) :
    Noted (read ++ [t]) (b.finish t).errors.reverse := by
  unfold finish
  rw [List.reverse_reverse]
  induction (b.feed t).opened.countP Open.isBlock with
  | zero => exact (tracks_feed h hs).1
  | succ n ih =>
    rw [List.replicate_succ, List.cons_append]
    exact ih.last hs rfl rfl

/-- Reading a program that ends with an end token keeps its complaints in the order of the
source. -/
theorem noted_run {ts : List Token} (h : b.Tracks read) (hs : Downward (read ++ ts))
    (hend : ∃ t, ts.getLast? = some t ∧ t.kind = .eof) :
    Noted (read ++ ts) (b.run ts).errors.reverse := by
  induction ts generalizing b read with
  | nil =>
    obtain ⟨t, ht, -⟩ := hend
    cases ht
  | cons t ts ih =>
    rw [List.append_cons] at hs ⊢
    have ht : Downward (read ++ [t]) := (List.pairwise_append.mp hs).1
    unfold run
    split
    next => exact (noted_finish h ht).append ts
    next hk =>
      refine ih (tracks_feed h ht) hs ?_
      obtain ⟨u, hu, heof⟩ := hend
      cases ts with
      | nil =>
        cases hu
        contradiction
      | cons v vs => exact ⟨u, by rwa [List.getLast?_cons_cons] at hu, heof⟩

end Builder

namespace Grammar

variable {tokens : List Token} {errors : List SyntaxError}

/-- The complaints about what stands behind an equals sign are on its line or below. -/
theorem Misassigned.own_below {line : Nat} {own : List SyntaxError}
    (h : Misassigned tokens line own) (hs : Downward tokens) :
    ∀ x ∈ own, ∃ t ∈ tokens, x = .tooManyArguments 255 t.line ∧ line ≤ t.line := by
  obtain ⟨-, -, -, hv, -⟩ := h
  intro x hx
  obtain ⟨t, ht, rfl⟩ := hv.excesses x hx
  exact ⟨t, by simp [ht], rfl, List.rel_of_pairwise_cons (List.pairwise_append.mp hs).2.1
    (List.mem_append_left _ ht)⟩

/-- Complaints other than those about assignments lie on lines that never decrease. -/
theorem Noted.pairwise (h : Noted tokens errors) :
    (errors.filter (! ·.misassigns)).Pairwise fun x y => y.line ≤ x.line := by
  induction h with
  | nil => exact .nil
  | about _ _ hn ho ih =>
    rw [List.filter_cons_of_pos (by simp [hn])]
    exact .cons (fun y hy => ho y (List.mem_filter.mp hy).1) ih
  | target _ _ _ _ ih =>
    rw [List.filter_cons_of_neg (by simp [SyntaxError.misassigns])]
    exact ih

/-- What lies behind a complaint about an assignment is on its line or below, and what lies in front
of it is on its line or above, up to what its own value is complained about. -/
theorem Noted.around_target (h : Noted tokens errors) (hs : Downward tokens)
    {after before : List SyntaxError} {line : Nat}
    (he : errors = after ++ .invalidAssignmentTarget line :: before) :
    (∀ x ∈ after, line ≤ x.line) ∧
      ∃ earlier own, before.reverse = earlier ++ own ∧ Misassigned tokens line own ∧
        ∀ x ∈ earlier, x.line ≤ line := by
  induction h generalizing after with
  | nil => simp at he
  | @about older x _ _ hn ho ih =>
    cases after with
    | nil =>
      cases he
      cases hn
    | cons y after =>
      obtain ⟨rfl, rfl⟩ := List.cons.inj he
      obtain ⟨hafter, hbefore⟩ := ih rfl
      have hx := ho (.invalidAssignmentTarget line) (by simp)
      exact ⟨List.forall_mem_cons.mpr ⟨hx, hafter⟩, hbefore⟩
  | @target older earlier own line' _ hm hd ho ih =>
    cases after with
    | nil =>
      cases he
      exact ⟨fun x hx => absurd hx List.not_mem_nil, earlier, own, hd, hm, ho⟩
    | cons y after =>
      obtain ⟨rfl, rfl⟩ := List.cons.inj he
      obtain ⟨hafter, hbefore⟩ := ih rfl
      have hmem : SyntaxError.invalidAssignmentTarget line ∈ earlier ++ own := by simp [← hd]
      have hline : line ≤ line' := by
        obtain hmem | hmem := List.mem_append.mp hmem
        · exact ho _ hmem
        · obtain ⟨t, -, hx, -⟩ := hm.own_below hs _ hmem
          cases hx
      exact ⟨List.forall_mem_cons.mpr ⟨hline, hafter⟩, hbefore⟩

/-- The lines of the tokens of a source never decrease. -/
theorem scan_downward (source : String) : Downward (scan source).tokens := by
  have h : Segmented source.toList (Segment.cutAll [] source.toList) :=
    Segment.cutAll_eq_iff.mp rfl
  rw [scan_tokens]
  refine List.pairwise_append.mpr ⟨?_, List.pairwise_singleton _ _, ?_⟩
  · refine (Segment.ends_pairwise _ 1).filterMap _ fun e e' hle t ht t' ht' => ?_
    rw [Segment.line_of_token? ht, Segment.line_of_token? ht']
    exact hle
  · intro t ht t' ht'
    obtain ⟨e, he, hte⟩ := List.mem_filterMap.mp ht
    have hb := (Segment.mem_ends_bounds he).2
    rw [h.text_flatMap] at hb
    rw [Segment.line_of_token? hte, List.mem_singleton.mp ht']
    exact hb

end Grammar

open Grammar

/-- The tokens of a source go down its lines and end with an end token. Wherever tokens do, each
complaint about them is on the line of one of them, and apart from those about assignments to what
is no name, the lines of complaints never decrease. Behind a complaint about such an assignment are
only complaints on its line or below, and in front of it only complaints on its line or above, up to
those that the value to the right of its equals sign deserves, which are about too many
arguments. -/
theorem complaints_in_source_order :
    (∀ source, Downward (scan source).tokens ∧
      ∃ t, (scan source).tokens.getLast? = some t ∧ t.kind = .eof) ∧
    ∀ tokens, Downward tokens → (∃ t, tokens.getLast? = some t ∧ t.kind = .eof) →
      (∀ x ∈ (parse tokens).errors, ∃ t ∈ tokens, x.line = t.line) ∧
      ((parse tokens).errors.filter (! ·.misassigns)).Pairwise (·.line ≤ ·.line) ∧
      ∀ before line after,
        (parse tokens).errors = before ++ .invalidAssignmentTarget line :: after →
        (∀ x ∈ after, line ≤ x.line) ∧
        ∃ earlier own, before = earlier ++ own ∧ (∀ x ∈ earlier, x.line ≤ line) ∧
          Misassigned tokens line own ∧
          ∀ x ∈ own, ∃ t ∈ tokens, x = .tooManyArguments 255 t.line ∧ line ≤ t.line := by
  refine ⟨fun source => ⟨scan_downward source, ?_⟩, fun tokens hs hend => ?_⟩
  · rw [scan_tokens]
    exact ⟨_, List.getLast?_concat, rfl⟩
  have hstart : Builder.start.Tracks [] := ⟨.nil, trivial⟩
  have h : Noted tokens (parse tokens).errors.reverse := Builder.noted_run hstart hs hend
  refine ⟨fun x hx => h.placed x (List.mem_reverse.mpr hx), ?_, fun before line after he => ?_⟩
  · rw [← List.pairwise_reverse, ← List.filter_reverse]
    exact h.pairwise
  · have herr : (parse tokens).errors.reverse =
        after.reverse ++ .invalidAssignmentTarget line :: before.reverse := by simp [he]
    obtain ⟨hafter, earlier, own, hbefore, hm, hearlier⟩ := h.around_target hs herr
    rw [List.reverse_reverse] at hbefore
    exact ⟨fun x hx => hafter x (List.mem_reverse.mpr hx), earlier, own, hbefore, hearlier, hm,
      hm.own_below hs⟩

/-- An assignment to a constant of a call with 256 arguments on the next line, and on the line
behind it a return outside of any function. -/
def longCall : List Token :=
  [.make .true "true" 1, .make .equal "=" 1, .make .identifier "f" 2, .make .leftParen "(" 2] ++
    (List.replicate 255 [Token.make .nil "nil" 2, .make .comma "," 2]).flatten ++
    [.make .nil "nil" 2, .make .rightParen ")" 2, .make .semicolon ";" 2,
      .make .return "return" 3, .endOfInput 3]

/-- The complaint about the call stands in front of the one about the assignment, a line above. -/
theorem complaints_in_source_order_longCall :
    (parse longCall).errors =
        [.tooManyArguments 255 2, .invalidAssignmentTarget 1, .returnOutsideFunction 3] ∧
      Misassigned longCall 1 [.tooManyArguments 255 2] := by
  have he : (parse longCall).errors =
      [.tooManyArguments 255 2, .invalidAssignmentTarget 1, .returnOutsideFunction 3] := by
    decide +kernel
  have hdown : Downward longCall := by
    unfold Downward
    decide +kernel
  have hend : longCall.getLast? = some (.endOfInput 3) :=
    List.getLast?_append_of_ne_nil _ (by simp)
  obtain ⟨-, -, htarget⟩ := complaints_in_source_order.2 longCall hdown ⟨_, hend, rfl⟩
  obtain ⟨-, earlier, own, hb, hearlier, hm, -⟩ :=
    htarget [.tooManyArguments 255 2] 1 [.returnOutsideFunction 3] he
  cases earlier with
  | nil =>
    cases hb
    exact ⟨he, hm⟩
  | cons x xs =>
    -- the complaint about the call is not in front of the assignment
    obtain ⟨rfl, -⟩ := List.cons.inj hb
    exact absurd (hearlier _ List.mem_cons_self) (by decide)

end ClosureLang
