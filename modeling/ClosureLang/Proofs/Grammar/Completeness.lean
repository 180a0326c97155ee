import ClosureLang.Proofs.Grammar.Statements

namespace ClosureLang

namespace Grammar

mutual

theorem Expression.quiet {ts : List Token} {e : Expr} {d : List SyntaxError}
    (h : Expression (· ≤ 255) ts e d) : d = [] := by
  match h with
  | .assignment _ _ hv => exact hv.quiet
  | .logicOr h => exact h.quiet
termination_by structural h

theorem Operand.quiet {n : Nat} {ts : List Token} {e : Expr} {d : List SyntaxError}
    (h : Operand (· ≤ 255) n ts e d) : d = [] := by
  match h with
  | .tighter h | .not _ h | .negate _ h | .callEmpty h _ _ _ | .grouping _ h _ => exact h.quiet
  | .binary _ hl hr | .logical _ hl hr => rw [hl.quiet, hr.quiet, List.append_nil]
  | .call h _ ha hf _ => rw [h.quiet, ha.quiet hf, List.append_nil]
  | .literal _ | .lookup _ => rfl
termination_by structural h

theorem Arguments.quiet {ts : List Token} {args : List Expr} {d : List SyntaxError}
    (h : Arguments (· ≤ 255) ts args d) (hl : args.length ≤ 255) : d = [] := by
  match h with
  | .first h => exact h.quiet
  | .next h _ he =>
    rw [List.length_append, List.length_singleton] at hl
    rw [h.quiet (by omega), he.quiet, excess_of_lt (by omega)]
    rfl
termination_by structural h

end

theorem Parameters.quiet {ts : List Token} {ps : List String} {d : List SyntaxError}
    (h : Parameters ts ps d) (hl : ps.length ≤ 255) : d = [] := by
  induction h with
  | first => rfl
  | next _ _ _ ih =>
    rw [List.length_append, List.length_singleton] at hl
    rw [ih (by omega), excess_of_lt (by omega)]
    rfl

theorem Head.quiet {ts : List Token} {head : FunctionHead} {d : List SyntaxError}
    (h : Head (· ≤ 255) ts head d) : d = [] := by
  cases h with
  | parameters _ _ _ hp hl _ => exact hp.quiet hl
  | empty => rfl

theorem VarDecl.quiet {ts : List Token} {s : Stmt} {d : List SyntaxError}
    (h : VarDecl (· ≤ 255) ts s d) : d = [] := by
  cases h with
  | bare => rfl
  | initialized _ _ _ he _ => exact he.quiet

theorem ExprStmt.quiet {ts : List Token} {s : Stmt} {d : List SyntaxError}
    (h : ExprStmt (· ≤ 255) ts s d) : d = [] := by
  obtain ⟨he, _⟩ := h
  exact he.quiet

theorem Initial.quiet {ts : List Token} {initial : Option Stmt} {d : List SyntaxError}
    (h : Initial (· ≤ 255) ts initial d) : d = [] := by
  cases h with
  | none => rfl
  | varDecl h => exact h.quiet
  | exprStmt h => exact h.quiet

theorem Optional.quiet {ts : List Token} {value : Option Expr} {d : List SyntaxError}
    (h : Optional (· ≤ 255) ts value d) : d = [] := by
  cases h with
  | none => rfl
  | some h => exact h.quiet

mutual

theorem Declaration.quiet {inside : Bool} {ts : List Token} {s : Stmt} {d : List SyntaxError}
    (h : Declaration (· ≤ 255) inside ts s d) : d = [] := by
  match h with
  | .varDecl h => exact h.quiet
  | .funcDecl hh _ hb _ => rw [hh.quiet, hb.quiet, List.append_nil]
  | .statement h => exact h.quiet
termination_by structural h

theorem Statement.quiet {inside dangling : Bool} {ts : List Token} {s : Stmt}
    {d : List SyntaxError} (h : Statement (· ≤ 255) inside dangling ts s d) : d = [] := by
  match h with
  | .exprStmt h => exact h.quiet
  | .output _ he _ => exact he.quiet
  | .giveBack _ hv _ => exact hv.quiet
  | .block _ hb _ => exact hb.quiet
  | .ifThen _ _ he _ hy => rw [he.quiet, hy.quiet, List.append_nil]
  | .ifElse _ _ he _ hy _ hn => rw [he.quiet, hy.quiet, hn.quiet, List.append_nil, List.append_nil]
  | .loop _ _ he _ hb => rw [he.quiet, hb.quiet, List.append_nil]
  | .forLoop _ _ hi he _ hn _ hb =>
    rw [hi.quiet, he.quiet, hn.quiet, hb.quiet]
    rfl
termination_by structural h

/-- Declarations whose lists hold at most 255 items deserve no complaint. -/
theorem Declarations.quiet {inside : Bool} {ts : List Token} {ss : List Stmt}
    {d : List SyntaxError} (h : Declarations (· ≤ 255) inside ts ss d) : d = [] := by
  match h with
  | .nil => rfl
  | .cons h hr => rw [h.quiet, hr.quiet, List.append_nil]
termination_by structural h

end

/-- Reading goes on behind the declarations of a program, whatever follows, as if it had started
with their trees. -/
theorem Program.run_append {fits : Nat → Prop} {ts rest : List Token} {ss : List Stmt}
    {d : List SyntaxError} {e : Token} (h : Program fits ts ss d) (he : e.kind ≠ .else) :
    Builder.start.run (ts ++ e :: rest) =
      (Builder.mk .declaration [] ss.reverse d.reverse).run (e :: rest) := by
  have hl : Builder.start.AtList := by simp [Builder.AtList, Builder.start]
  have hi : Builder.start.Within false := fun h => Bool.noConfusion h
  obtain ⟨b, hr, hf⟩ := Declarations.reads h hi hl (b := Builder.start) fun _ _ => rfl
  have hb : b.feed e = (Builder.mk .declaration [] ss.reverse d.reverse).feed e := by
    rw [hf e he]
    simp [Builder.list, Builder.complain, Builder.start, Builder.feed]
  rw [hr, Builder.run, Builder.run, Builder.finish, Builder.finish, hb]

end Grammar

open Grammar

/-- A program in front of an end token is read as its tree, with a complaint for each list that is
too long and no other. -/
theorem parse_of_program {ts rest : List Token} {e : Token} (he : e.kind = .eof) :
    (∀ ss d, Program (fun _ => True) ts ss d → parse (ts ++ e :: rest) = ⟨ss, d⟩) ∧
      ∀ ss d, Program (· ≤ 255) ts ss d → parse (ts ++ e :: rest) = ⟨ss, []⟩ := by
  have hp : ∀ {fits : Nat → Prop} {ss d}, Program fits ts ss d →
      parse (ts ++ e :: rest) = ⟨ss, d⟩ := by
    intro fits ss d h
    rw [parse, h.run_append (by simp [he])]
    simp [Builder.run, he, Builder.finish, Builder.feed, Builder.atDeclaration, Builder.moveTo]
  refine ⟨fun ss d h => hp h, fun ss d h => ?_⟩
  obtain rfl := Declarations.quiet h
  exact hp h

theorem Grammar.program_of_call {fits : Nat → Prop} {f opening closing semicolon : Token}
    {ts : List Token} {args : List Expr} {d : List SyntaxError} (ha : Arguments fits ts args d)
    (hl : fits args.length) (hf : f.kind = .identifier) (ho : opening.kind = .leftParen)
    (hc : closing.kind = .rightParen) (hs : semicolon.kind = .semicolon) :
    Program fits ([f] ++ opening :: (ts ++ [closing]) ++ [semicolon])
      [.expression (.call (.lookup f.lexeme f.line) args closing.line)] d := by
  have he := (Operand.call (.lookup hf) ho ha hl hc).expression
  have hd : Declarations fits false _ _ _ := .cons (.statement (.exprStmt (.mk he hs))) .nil
  simpa [Program] using hd

/-- The arguments `t, t, …, t`, with a comma `n` times. -/
theorem Grammar.arguments_replicate {comma t : Token} (hc : comma.kind = .comma)
    (ht : t.kind = .nil) (n : Nat) :
    Arguments (fun _ => True) (t :: (List.replicate n [comma, t]).flatten)
      (List.replicate (n + 1) (.literal (t.literal.getD .nil)))
      (if 255 ≤ n then [.tooManyArguments 255 t.line] else []) := by
  have he : Expression (fun _ => True) [t] (.literal (t.literal.getD .nil)) [] :=
    (Operand.literal (by simp [constants, ht])).expression
  induction n with
  | zero => exact .first he
  | succ n ih =>
    have h := ih.next hc he
    have hd : (if 255 ≤ n then [SyntaxError.tooManyArguments 255 t.line] else []) ++
        excess .tooManyArguments (n + 1) t ++ [] =
          if 255 ≤ n + 1 then [.tooManyArguments 255 t.line] else [] := by
      grind [excess]
    rw [List.length_replicate, hd] at h
    rw [List.replicate_succ', List.replicate_succ']
    simpa using h

/-- The call `f(nil, nil, …, nil);` of 256 arguments. -/
theorem parse_of_program_overlong :
    parse ([Token.make .identifier "f" 1] ++ Token.make .leftParen "(" 1 ::
        (Token.make .nil "nil" 2 ::
          (List.replicate 255 [Token.make .comma "," 2, Token.make .nil "nil" 2]).flatten ++
          [Token.make .rightParen ")" 3]) ++ [Token.make .semicolon ";" 3] ++
        [Token.endOfInput 4]) =
      ⟨[.expression (.call (.lookup "f" 1) (List.replicate 256 (.literal .nil)) 3)],
        [.tooManyArguments 255 2]⟩ :=
  (parse_of_program rfl).1 _ _
    (program_of_call (arguments_replicate rfl rfl 255) trivial rfl rfl rfl rfl)

end ClosureLang
