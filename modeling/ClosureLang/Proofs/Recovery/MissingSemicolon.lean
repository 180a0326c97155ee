import ClosureLang.Proofs.Recovery.Blocks
import ClosureLang.Proofs.Recovery.Keywords

namespace ClosureLang

open Grammar

/-- The tokens from where reading resumes after a mistake. -/
def resumption : List Token → List Token
  | [] => []
  | t :: ts =>
    if t.kind = .eof ∨ Descent.resumes t.kind then t :: ts
    else if t.kind = .semicolon then ts
    else resumption ts

theorem readKeywords_resumption_le (ts : List Token) :
    readKeywords (resumption ts) ≤ readKeywords ts := by
  induction ts with
  | nil => exact le_rfl
  | cons t ts ih =>
    unfold resumption
    split
    next => exact le_rfl
    next h =>
      have hrest : readKeywords (t :: ts) = t.keywords + readKeywords ts :=
        if_neg fun ht => h (.inl ht)
      split <;> omega

namespace Builder

variable {b : Builder} {t : Token} {use : Use} {pending : List Pending} {e : Expr} {s : Stmt}

/-- After a mistake reading goes on as if the tokens that are passed over were not there. -/
theorem run_skip (ts : List Token) :
    (⟨.skip, [], [], []⟩ : Builder).run ts = parse (resumption ts) := by
  have hskip : ∀ t : Token, (⟨.skip, [], [], []⟩ : Builder).feed t =
      if Descent.resumes t.kind then start.feed t else start.moveTo (afterDropping t) :=
    fun t => Descent.feed_skip (b := start)
  have hfinish : ∀ t : Token, t.kind = .eof →
      (⟨.skip, [], [], []⟩ : Builder).finish t = start.finish t := by
    intro t ht
    rw [finish, finish, hskip, ht]
    simp [start, feed, atDeclaration, ht, moveTo, Descent.resumes]
  induction ts with
  | nil => exact hfinish _ rfl
  | cons t ts ih =>
    unfold run resumption
    by_cases ht : t.kind = .eof
    · rw [if_pos ht, if_pos (.inl ht), parse, run, if_pos ht]
      exact hfinish t ht
    · rw [if_neg ht, hskip]
      by_cases hr : Descent.resumes t.kind
      · rw [if_pos hr, if_pos (.inr hr), parse, run, if_neg ht]
      · rw [if_neg hr, if_neg (by simp [ht, hr]), afterDropping]
        split
        · rfl
        · exact ih

/-- A semicolon would end the statement `s`, and a keyword is a mistake. -/
structure Ends (b : Builder) (s : Stmt) : Prop where
  semicolon : ∀ t : Token, t.kind = .semicolon → b.feed t = b.moveTo (.completed s)
  keyword : ∀ t : Token, Descent.resumes t.kind →
    ∃ x : SyntaxError, x.found? = some t.describe ∧ x.line = t.line ∧ b.feed t = b.fail x t

/-- Where reading resumes, neither an expression goes on nor does a statement end. -/
theorem kind_of_resumes {k : TokenKind} (h : Descent.resumes k = true) :
    k ≠ .leftParen ∧ k ≠ .equal ∧ Connective.ofKind? k = none ∧ k ≠ .semicolon ∧ k ≠ .eof := by
  revert h
  cases k <;> decide

theorem Ends.of_need (message : String) (h : ∀ t : Token, t.kind ≠ .leftParen → t.kind ≠ .equal →
    Connective.ofKind? t.kind = none →
    b.feed t = b.need .semicolon message t (b.moveTo (.completed s))) : b.Ends s := by
  constructor
  · intro t ht
    rw [h t (by simp [ht]) (by simp [ht]) (by rw [ht]; rfl), need, if_pos ht]
  · intro t ht
    refine ⟨.expectedToken message t.describe t.line, rfl, rfl, ?_⟩
    obtain ⟨hparen, hequal, hconnective, hsemicolon, -⟩ := kind_of_resumes ht
    rw [h t hparen hequal hconnective, need, if_neg hsemicolon]
    rfl

theorem fail_errors_ne {x : SyntaxError} : (b.fail x t).errors ≠ b.errors :=
  List.cons_ne_self x b.errors

theorem need_errors_ne {kind : TokenKind} {message : String} {next : Builder}
    (hk : t.kind ≠ kind) : (b.need kind message t next).errors ≠ b.errors := by
  rw [need, if_neg hk]
  exact fail_errors_ne

theorem atOperand_errors_ne (ht : t.kind = .semicolon) :
    (b.atOperand use pending t).errors ≠ b.errors := by
  intro h
  have hlength := congrArg List.length h
  simp only [atOperand, ht, fail, abandon, checkArguments_eq_complain, complain, List.length_cons,
    List.length_append] at hlength
  omega

theorem atStatement_errors_ne (ht : t.kind = .semicolon) : (b.atStatement t).errors ≠ b.errors := by
  have h : b.atStatement t = b.atOperand .expression [] t := by simp [atStatement, ht]
  rw [h]
  exact atOperand_errors_ne ht

theorem atDeclaration_errors_ne (ht : t.kind = .semicolon) :
    (b.atDeclaration t).errors ≠ b.errors := by
  have h : b.atDeclaration t = b.atStatement t := by simp [atDeclaration, ht]
  rw [h]
  exact atStatement_errors_ne ht

theorem atParameter_errors_ne (ht : t.kind = .semicolon) {name : String} {line : Nat}
    {done : List String} : (b.atParameter name line done t).errors ≠ b.errors := by
  unfold atParameter
  split
  · intro h
    have hlength := congrArg List.length h
    simp only [need, ht, expected, fail, abandon, report, reduceCtorEq, if_false,
      List.length_cons] at hlength
    omega
  · exact need_errors_ne (by simp [ht])

theorem ite_errors_ne {q : Prop} [Decidable q] {b₁ b₂ : Builder} (hq : ¬ q)
    (h : b₂.errors ≠ b.errors) : (if q then b₁ else b₂).errors ≠ b.errors := by
  rw [if_neg hq]
  exact h

/-- A semicolon behind a whole statement ends no other. -/
theorem not_between_afterStatement (ht : t.kind = .semicolon) (s : Stmt) (opened : List Open)
    (he : (b.afterStatement t s opened).errors = b.errors) :
    ¬ (b.afterStatement t s opened).Between := by
  induction opened generalizing s with
  | nil =>
    exact absurd he (atDeclaration_errors_ne
      (b := { b with opened := [], statements := s :: b.statements }) ht)
  | cons o opened ih =>
    cases o with
    | block done =>
      exact absurd he (atDeclaration_errors_ne
        (b := { b with opened := .block (s :: done) :: opened }) ht)
    | body head done =>
      exact absurd he (atDeclaration_errors_ne
        (b := { b with opened := .body head (s :: done) :: opened }) ht)
    | forInitial =>
      rw [afterStatement, atForCondition, if_pos ht]
      exact id
    | thenBranch condition =>
      rw [afterStatement, if_neg (by simp [ht])] at he ⊢
      exact ih _ he
    | elseBranch | loopBody | forBody => exact ih _ he

theorem exists_ends_afterExpression (ht : t.kind = .semicolon)
    (hfeed : ∀ u : Token, u.kind ≠ .leftParen → u.kind ≠ .equal →
      Connective.ofKind? u.kind = none → b.feed u = b.afterExpression use e u)
    (he : (b.afterExpression use e t).errors = b.errors)
    (hb : (b.afterExpression use e t).Between) : ∃ s, b.Ends s := by
  cases use with
  | expression => exact ⟨_, .of_need "Expect ';' after expression." hfeed⟩
  | output => exact ⟨_, .of_need "Expect ';' after value." hfeed⟩
  | initial name line => exact ⟨_, .of_need "Expect ';' after variable declaration." hfeed⟩
  | result line => exact ⟨_, .of_need "Expect ';' after return value." hfeed⟩
  | ifCondition | loopCondition | forIncrement =>
    exact absurd he (need_errors_ne (by simp [ht]))
  | forCondition initial =>
    rw [afterExpression, need, if_pos ht] at hb
    exact hb.elim

/-- A semicolon behind which a declaration is over, and that was not passed over, ends a
statement. -/
theorem exists_ends (ht : t.kind = .semicolon) (hp : b.position ≠ .skip ∧ b.position ≠ .discard)
    (he : (b.feed t).errors = b.errors) (hb : (b.feed t).Between) : ∃ s, b.Ends s := by
  obtain ⟨position, opened, ss, es⟩ := b
  cases position with
  | operator use pending e =>
    have hend : ∀ u : Token, u.kind ≠ .leftParen → u.kind ≠ .equal →
        Connective.ofKind? u.kind = none →
        feed ⟨.operator use pending e, opened, ss, es⟩ u =
          atEnd ⟨.operator use pending e, opened, ss, es⟩ use pending e u := by
      intro u hparen hequal hop
      simp [feed, atOperator, hop]
    rw [hend t (by simp [ht]) (by simp [ht]) (by rw [ht]; rfl)] at he hb
    unfold atEnd at hend he hb
    cases hc : Pending.complete e pending with
    | whole e' =>
      simp only [hc] at hend he hb
      exact exists_ends_afterExpression ht hend he hb
    | grouped e' rest =>
      simp only [hc] at he
      exact absurd he (need_errors_ne (by simp [ht]))
    | argument callee done e' rest =>
      simp only [hc, ht] at he
      exact absurd he (need_errors_ne (by simp [ht]))
    | badTarget line =>
      simp only [hc] at he
      exact absurd he fail_errors_ne
  | createRest name line =>
    refine ⟨.create name none line, .of_need "Expect ';' after variable declaration." ?_⟩
    exact fun u _ hequal _ => if_neg hequal
  | resultStart line =>
    refine ⟨.giveBack none line, fun u hu => if_pos hu, fun u hu => ?_⟩
    refine ⟨.expectedExpression u.describe u.line, rfl, rfl, ?_⟩
    cases hk : u.kind <;> simp_all [Descent.resumes, feed, atOperand, checkArguments]
  | declaration => exact absurd he (atDeclaration_errors_ne ht)
  | statement => exact absurd he (atStatement_errors_ne ht)
  | operand use pending => exact absurd he (atOperand_errors_ne ht)
  | firstArgument | forIncrement =>
    exact absurd he (ite_errors_ne (by simp [ht]) (atOperand_errors_ne ht))
  | completed s => exact absurd hb (not_between_afterStatement ht s opened he)
  | firstParameter => exact absurd he (ite_errors_ne (by simp [ht]) (atParameter_errors_ne ht))
  | parameter => exact absurd he (atParameter_errors_ne ht)
  | parameterRest =>
    exact absurd he (ite_errors_ne (by simp [ht]) (need_errors_ne (by simp [ht])))
  | forStart =>
    simp only [feed, ht] at hb
    exact hb.elim
  | forCondition initial =>
    simp only [feed, atForCondition, ht, if_true] at hb
    exact hb.elim
  | skip => exact absurd rfl hp.1
  | discard => exact absurd rfl hp.2
  | _ => exact absurd he (need_errors_ne (by simp [ht]))

/-- The end of the input closes no block. -/
theorem countP_afterStatement (ht : t.kind = .eof) (s : Stmt) (opened : List Open) :
    (b.afterStatement t s opened).opened.countP Open.isBlock = opened.countP Open.isBlock := by
  induction opened generalizing s with
  | nil => simp [afterStatement, atDeclaration, ht]
  | cons o opened ih =>
    cases o with
    | block | body =>
      simp [afterStatement, atDeclaration, ht, List.countP_cons, Open.isBlock]
    | forInitial =>
      have hopened : (b.afterStatement t s (.forInitial :: opened)).opened =
          opened.dropWhile (! ·.isBlock) := by
        simp [afterStatement, atForCondition, atOperand, ht, checkArguments, fail, abandon]
      rw [hopened, Descent.countP_dropWhile_not]
      simp [Open.isBlock]
    | thenBranch condition =>
      rw [afterStatement, if_neg (by simp [ht]), ih]
      simp [Open.isBlock]
    | elseBranch | loopBody | forBody =>
      rw [afterStatement, ih]
      simp [Open.isBlock]

/-- In front of the semicolon that ends a program, nothing waits but for the end of a statement
outside of all blocks. -/
theorem exists_ends_of_quiet {p : List Token} (hp : ∀ t ∈ p, t.kind ≠ .eof)
    (ht : t.kind = .semicolon) (hquiet : (parse (p ++ [t])).errors = []) :
    ∃ s s', (p.foldl feed start).Ends s ∧
      (p.foldl feed start).errors = [] ∧ (p.foldl feed start).opened.countP Open.isBlock = 0 ∧
      (parse (p ++ [t])).statements = (p.foldl feed start).statements.reverse ++ [s'] := by
  have hrun : parse (p ++ [t]) = ((p.foldl feed start).feed t).finish (.endOfInput 0) := by
    rw [parse, run_append hp, run, if_neg (by simp [ht])]
    rfl
  rw [hrun] at hquiet ⊢
  have hformed := (formed_foldl p).feed t
  have hspells := spells_foldl hp
  generalize p.foldl feed start = b at *
  have hend : ((b.feed t).feed (.endOfInput 0)).opened.countP Open.isBlock = 0 ∧
      ((b.feed t).feed (.endOfInput 0)).errors = [] := by
    rwa [finish, List.reverse_eq_nil_iff, List.append_eq_nil_iff, List.replicate_eq_nil_iff]
      at hquiet
  have hfeed : (b.feed t).errors = [] := List.suffix_nil.mp (hend.2 ▸ errors_feed)
  have herrors : b.errors = [] := List.suffix_nil.mp (hfeed ▸ errors_feed)
  have hshows : (b.feed t).Shows t := shows_feed (by simp [Token.Inner, ht])
  rw [Shows, ht] at hshows
  have hbetween : (b.feed t).Between := by
    by_contra hb
    obtain ⟨x, hx, -⟩ := asks_at_end hshows hb
    rw [hquiet] at hx
    cases hx
  obtain ⟨s, hs⟩ := exists_ends ht (hspells herrors).not_recovering (hfeed.trans herrors.symm)
    hbetween
  rw [hs.semicolon t ht] at hend hformed hbetween ⊢
  have hblocks : b.opened.countP Open.isBlock = 0 := by
    rw [← hend.1]
    exact (countP_afterStatement rfl s b.opened).symm
  obtain ⟨hdeclaration, -⟩ | ⟨-, -, hparts⟩ := hformed.between hbetween hblocks
  · cases hdeclaration
  · obtain ⟨s', hs'⟩ := feed_end_of_parts (b := b.moveTo (.completed s)) (t := .endOfInput 0) rfl
      hparts rfl
    refine ⟨s, s', hs, herrors, hblocks, ?_⟩
    rw [finish, hs']
    exact List.reverse_cons

end Builder

/-- The program with a semicolon left out in front of a keyword gets a complaint about the keyword,
and loses the statement without its semicolon, but also what the keyword begins: what is read of
the rest is what is read from where reading resumes behind the keyword. So the statements in front
are never followed by all those that the keyword and the rest would give alone. -/
theorem missing_semicolon_drops_keyword (p q : List Token) (semicolon key : Token)
    (hp : ∀ t ∈ p, t.kind ≠ .eof) (hs : semicolon.kind = .semicolon)
    (hquiet : (parse (p ++ [semicolon])).errors = [])
    (hk : key.kind ∈ [.func, .create, .for, .if, .while, .output])
    (hq : (parse (key :: q)).errors = []) :
    (∃ x : SyntaxError, x.found? = some key.describe ∧ x.line = key.line ∧
      parse (p ++ key :: q) =
        ⟨(parse (p ++ [semicolon])).statements.dropLast ++ (parse (resumption q)).statements,
          x :: (parse (resumption q)).errors⟩) ∧
    (parse (p ++ key :: q)).statements ≠
      (parse (p ++ [semicolon])).statements.dropLast ++ (parse (key :: q)).statements := by
  have hkeys : ∀ k ∈ [TokenKind.func, .create, .for, .if, .while, .output],
      Descent.resumes k = true := by decide
  have hresumes : Descent.resumes key.kind = true := hkeys key.kind hk
  obtain ⟨-, -, -, hsemicolon, hend⟩ := Builder.kind_of_resumes hresumes
  obtain ⟨s, s', hends, herrors, hblocks, hstatements⟩ :=
    Builder.exists_ends_of_quiet hp hs hquiet
  obtain ⟨x, hfound, hline, hfail⟩ := hends.keyword key hresumes
  have hdrop : (p.foldl Builder.feed Builder.start).opened.dropWhile (! ·.isBlock) = [] := by
    rw [List.dropWhile_eq_nil_iff]
    intro o ho
    simpa using List.countP_eq_zero.mp hblocks o ho
  have hskip : (p.foldl Builder.feed Builder.start).fail x key =
      Builder.onto (p.foldl Builder.feed Builder.start).statements [x] ⟨.skip, [], [], []⟩ := by
    simp [Builder.fail, Builder.abandon, Builder.afterDropping, Builder.onto, hsemicolon, hdrop,
      herrors]
  have hparse : parse (p ++ key :: q) =
      ⟨(parse (p ++ [semicolon])).statements.dropLast ++ (parse (resumption q)).statements,
        x :: (parse (resumption q)).errors⟩ := by
    rw [parse, Builder.run_append hp, Builder.run, if_neg hend, hfail, hskip,
      Builder.onto_run, Builder.run_skip, hstatements, List.dropLast_concat]
    rfl
  refine ⟨⟨x, hfound, hline, hparse⟩, fun hall => ?_⟩
  -- The keyword begins a statement of its own, which no statement behind it makes up for.
  rw [hparse] at hall
  have hcount := congrArg Stmt.allKeywords (List.append_cancel_left hall)
  have hle := allKeywords_parse_le (resumption q)
  have hrest := readKeywords_resumption_le q
  have hone : readKeywords (key :: q) = 1 + readKeywords q := by
    simp [readKeywords, Token.keywords, hresumes, hend]
  rw [allKeywords_parse hq] at hcount
  omega

/-- The statement behind `output 1 if (a) b;` is lost with the one in front. -/
theorem missing_semicolon_drops_if :
    (∃ x : SyntaxError, x.found? = some "'if'" ∧ x.line = 1 ∧
      parse (unended ++ openEnded) = ⟨[], [x]⟩) ∧
    (parse (unended ++ openEnded)).statements ≠ (parse openEnded).statements :=
  missing_semicolon_drops_keyword unended openEnded.tail (.make .semicolon ";" 1)
    (.make .if "if" 1) (by decide) rfl rfl (by decide) rfl

/-- The second `output` is dropped with the first one, which lacks its semicolon. -/
theorem unended_drops_output :
    (parse (unended ++ [.make .semicolon ";" 1])).errors = [] ∧
    (parse (unended ++ (unended ++ [.make .semicolon ";" 1]))).statements ≠
      (parse (unended ++ [.make .semicolon ";" 1])).statements.dropLast ++
        (parse (unended ++ [.make .semicolon ";" 1])).statements := by
  refine ⟨rfl, fun h => ?_⟩
  cases h

end ClosureLang
