import ClosureLang.Proofs.Recovery.Causes
import ClosureLang.Proofs.Recovery.Headers
import ClosureLang.Proofs.Recovery.Nesting

namespace ClosureLang

/-- Whether tokens end where a declaration ends, be it read or given up: the last one is a
semicolon, and nothing is asked for at the end. -/
def Settled (ts : List Token) : Prop :=
  (∀ t ∈ ts.getLast?, t.kind = .semicolon) ∧
    ∀ x ∈ (parse ts).errors, x.found? ≠ some "end"

/-- Between declarations there is nothing to drop. -/
theorem Grammar.Surrounds.dropWhile_eq {inside : Bool} {opened : List Open}
    (h : Surrounds .list inside opened) : opened.dropWhile (! ·.isBlock) = opened := by
  cases h <;> rfl

namespace Builder

open Grammar

variable {b : Builder} {t : Token} {use : Use} {pending : List Pending} {e : Expr}

/-- The token is dropped with the declaration that is being read. -/
def Drops (b b' : Builder) : Prop :=
  ∃ es, b' = ⟨.skip, b.opened.dropWhile (! ·.isBlock), b.statements, es⟩

theorem drops_fail (ht : t.kind = .rightBrace) (x : SyntaxError) : b.Drops (b.fail x t) :=
  ⟨x :: b.errors, by simp [fail, abandon, afterDropping, ht]⟩

theorem drops_ite {q : Prop} [Decidable q] {b₁ b₂ : Builder} (hq : ¬ q) (h : b.Drops b₂) :
    b.Drops (if q then b₁ else b₂) := by
  rw [if_neg hq]
  exact h

theorem drops_need (ht : t.kind = .rightBrace) {kind : TokenKind} {message : String}
    {next : Builder} (hk : kind ≠ .rightBrace) : b.Drops (b.need kind message t next) := by
  rw [need, if_neg fun h => hk (h.symm.trans ht)]
  exact drops_fail ht _

theorem drops_atOperand (ht : t.kind = .rightBrace) : b.Drops (b.atOperand use pending t) := by
  rw [atOperand, checkArguments_eq_complain, ht]
  exact ⟨_, by simp [fail, abandon, afterDropping, ht, complain]; rfl⟩

theorem drops_atOperator (ht : t.kind = .rightBrace) :
    b.Drops (b.atOperator use pending e t) := by
  have hend : b.atOperator use pending e t = b.atEnd use pending e t := by
    simp [atOperator, ht, Connective.ofKind?, BinaryOp.ofKind?]
  rw [hend, atEnd]
  split
  · cases use <;> exact drops_need ht (by decide)
  · exact drops_need ht (by decide)
  · exact drops_ite (by simp [ht]) (drops_need ht (by decide))
  · exact drops_fail ht _

theorem drops_atParameter (ht : t.kind = .rightBrace) {name : String} {line : Nat}
    {done : List String} : b.Drops (b.atParameter name line done t) := by
  unfold atParameter
  split
  · exact drops_need (b := b.report _) ht (by decide)
  · exact drops_need ht (by decide)

/-- Where no declaration is over, a closing brace is dropped. -/
theorem Formed.drops_feed (hf : b.Formed) (ht : t.kind = .rightBrace) (hb : ¬ b.Between) :
    b.Drops (b.feed t) := by
  obtain ⟨place, inside, hframed, hadmits⟩ := hf
  have hdropped : place = .list → b.Drops (b.moveTo (afterDropping t)) := by
    rintro rfl
    have hopened := hframed.opened.dropWhile_eq
    exact ⟨b.errors, by simp [moveTo, afterDropping, ht, hopened]⟩
  unfold Between at hb
  unfold Builder.feed
  cases hp : b.position with
  | declaration => simp [hp] at hb
  | statement =>
    rw [atStatement, ht]
    exact drops_atOperand ht
  | operand use pending => exact drops_atOperand ht
  | operator use pending e => exact drops_atOperator ht
  | firstArgument use pending callee => exact drops_ite (by simp [ht]) (drops_atOperand ht)
  | completed s =>
    cases ho : b.opened with
    | nil => simp [hp, ho] at hb
    | cons o rest =>
      obtain rfl : o = .forInitial := by simpa [hp, ho] using hb
      have hdrops : { b with opened := rest }.Drops ({ b with opened := rest }.atOperand
          (.forCondition (some s)) [] t) := drops_atOperand ht
      obtain ⟨es, hes⟩ := hdrops
      refine ⟨es, ?_⟩
      dsimp only
      rw [ho, afterStatement, atForCondition, if_neg (by simp [ht]), hes]
      rfl
  | createRest name line => exact drops_ite (by simp [ht]) (drops_need ht (by decide))
  | firstParameter name line => exact drops_ite (by simp [ht]) (drops_atParameter ht)
  | parameter name line done => exact drops_atParameter ht
  | parameterRest name line done => exact drops_ite (by simp [ht]) (drops_need ht (by decide))
  | forStart =>
    rw [ht]
    exact drops_atOperand (b := { b with opened := .forInitial :: b.opened }) ht
  | forCondition initial => exact drops_ite (by simp [ht]) (drops_atOperand ht)
  | forIncrement initial condition => exact drops_ite (by simp [ht]) (drops_atOperand ht)
  | resultStart line => exact drops_ite (by simp [ht]) (drops_atOperand ht)
  | discard =>
    rw [hp] at hadmits
    exact hdropped hadmits
  | skip =>
    rw [hp] at hadmits
    rw [ht]
    exact hdropped hadmits
  | _ => exact drops_need ht (by decide)

theorem between_nest : b.nest.Between ↔ b.Between := by
  unfold Between
  rw [nest_position, nest_opened]
  cases b.opened <;> simp

/-- Where a declaration is over, a closing brace ends the block with the statements that are listed
at the end of the input. -/
theorem Formed.nest_feed (hf : b.Formed) (hb : b.Between)
    (ho : b.opened.countP Open.isBlock = 0) (ht : t.kind = .rightBrace) :
    ∃ ss, b.finish (.endOfInput 0) = ⟨ss, b.errors.reverse⟩ ∧
      b.nest.feed t = ⟨.completed (.block ss), [], [], b.errors⟩ := by
  obtain ⟨hp, hopened⟩ | ⟨s, hp, hparts⟩ := hf.between hb ho
  · obtain ⟨position, opened, ss, es⟩ := b
    cases hp
    cases hopened
    exact ⟨ss.reverse, rfl, by simp [nest, Builder.feed, atDeclaration, ht]⟩
  · obtain ⟨s', hs⟩ := afterStatement_parts hparts s
    refine ⟨(s' :: b.statements).reverse, ?_, ?_⟩
    · have hend : b.feed (.endOfInput 0) = b.afterStatement (.endOfInput 0) s' [] := by
        rw [← hs b _ [] (by decide : (Token.endOfInput 0).kind ≠ .else), List.append_nil,
          Builder.feed, hp]
      rw [finish, hend]
      rfl
    · have hbrace : b.nest.feed t = b.nest.afterStatement t s' [.block b.statements] := by
        rw [← hs b.nest t _ (by simp [ht]), Builder.feed, nest_position, hp]
        rfl
      rw [hbrace]
      simp [afterStatement, atDeclaration, nest, ht]

theorem atOperand_end (b : Builder) (use : Use) (pending : List Pending) :
    .expectedExpression "end" 0 ∈ (b.atOperand use pending (.endOfInput 0)).errors :=
  List.mem_cons_self

/-- In the clauses of a loop the end of the input is not what is asked for. -/
theorem asks_at_end (hs : b.position.behindSemicolon = true) (hb : ¬ b.Between) :
    ∃ x ∈ (b.finish (.endOfInput 0)).errors, x.found? = some "end" := by
  suffices h : .expectedExpression "end" 0 ∈ (b.feed (.endOfInput 0)).errors by
    refine ⟨.expectedExpression "end" 0, ?_, rfl⟩
    rw [finish, List.mem_reverse]
    exact List.mem_append_right _ h
  unfold Between at hb
  unfold feed
  cases hp : b.position with
  | declaration => simp [hp] at hb
  | completed s =>
    cases ho : b.opened with
    | nil => simp [hp, ho] at hb
    | cons o rest =>
      obtain rfl : o = .forInitial := by simpa [hp, ho] using hb
      exact atOperand_end { b with opened := rest } (.forCondition (some s)) []
  | forCondition initial => exact atOperand_end b (.forCondition initial) []
  | forIncrement initial condition => exact atOperand_end b (.forIncrement initial condition) []
  | _ => simp [hp, Position.behindSemicolon] at hs

theorem Between.behindSemicolon (hb : b.Between) : b.position.behindSemicolon = true := by
  unfold Between at hb
  split at hb
  next hp => rw [hp]; rfl
  next hp => rw [hp]; rfl
  next => exact hb.elim

/-- Whether a declaration is over shows in the last token and in the complaints. -/
theorem settled_iff_between {ts : List Token} (hts : ∀ t ∈ ts, t.Inner) :
    Settled ts ↔ (ts.foldl feed start).Between := by
  have hrun : parse ts = (ts.foldl feed start).finish (.endOfInput 0) :=
    run_foldl fun t ht => (hts t ht).2.2
  have hshows : ∀ t ∈ ts.getLast?, (ts.foldl feed start).Shows t := by
    intro last hlast
    obtain ⟨init, rfl⟩ := List.getLast?_eq_some_iff.mp hlast
    rw [List.foldl_append]
    exact shows_feed (hts last (by simp))
  constructor
  · rintro ⟨hlast, herrors⟩
    by_contra hb
    have hs : (ts.foldl feed start).position.behindSemicolon = true := by
      cases ts using List.reverseRecOn with
      | nil => rfl
      | append_singleton init last =>
        have h := hshows last (by simp)
        rwa [Shows, hlast last (by simp)] at h
    obtain ⟨x, hx, hend⟩ := asks_at_end hs hb
    rw [← hrun] at hx
    exact herrors x hx hend
  · intro hb
    refine ⟨fun t ht => ?_, fun x hx => ?_⟩
    · have h := hshows t ht
      rw [Shows, hb.behindSemicolon] at h
      exact of_decide_eq_true h.symm
    · have hstraight : (ts.foldl feed start).Straight true :=
        straight_start.foldl fun t ht => ⟨fun _ => rfl, (hts t ht).1⟩
      obtain ⟨ss, hfinish, -⟩ :=
        (formed_foldl ts).nest_feed hb hstraight.1.countP (t := .make .rightBrace "" 0) rfl
      rw [hrun, hfinish, List.mem_reverse] at hx
      obtain hx | ⟨t, ht, hc⟩ := exists_concerns_foldl hx
      · cases hx
      · exact hc.found_ne_end (hts t ht).2.2

/-- Behind a statement that nothing waits for, reading goes on as at the start. -/
theorem run_completed (s : Stmt) (es : List SyntaxError) (ts : List Token) :
    (⟨.completed s, [], [], es⟩ : Builder).run ts =
      ⟨s :: (parse ts).statements, es.reverse ++ (parse ts).errors⟩ := by
  have hfeed : ∀ t : Token, (⟨.completed s, [], [], es⟩ : Builder).feed t =
      (start.onto [s] es).feed t := fun t => moveTo_atDeclaration (b := start.onto [s] es)
  have hrun : (⟨.completed s, [], [], es⟩ : Builder).run ts = (start.onto [s] es).run ts := by
    cases ts with
    | nil => simp only [run, finish, hfeed]
    | cons t ts => simp only [run, finish, hfeed]
  rw [hrun, onto_run]
  rfl

/-- What a block comes to, by whether the last declaration in it is over. -/
theorem run_block {d : List Token} {closing : Token} (hc : closing.kind = .rightBrace)
    (hd : ∀ t ∈ d, t.Inner) (q : List Token) :
    (Settled d → (start.nest.run (d ++ closing :: q)) =
      ⟨.block (parse d).statements :: (parse q).statements,
        (parse d).errors ++ (parse q).errors⟩) ∧
    (¬ Settled d → (∀ t ∈ q, t.kind ≠ .rightBrace) →
      (start.nest.run (d ++ closing :: q)).statements = []) := by
  have hstraight : (d.foldl feed start).Straight true :=
    straight_start.foldl fun t ht => ⟨fun _ => rfl, (hd t ht).1⟩
  have hparse : parse d = (d.foldl feed start).finish (.endOfInput 0) :=
    run_foldl fun t ht => (hd t ht).2.2
  have hnest : start.nest.run (d ++ closing :: q) =
      ((d.foldl feed start).nest.feed closing).run q := by
    rw [run_append fun t ht => (hd t ht).2.2, nest_foldl fun t ht => (hd t ht).2.1, run,
      if_neg (by simp [hc])]
  rw [settled_iff_between hd, hnest]
  constructor
  · intro hb
    obtain ⟨ss, hfinish, hfeed⟩ := (formed_foldl d).nest_feed hb hstraight.1.countP hc
    rw [hfeed, run_completed, hparse, hfinish]
  · intro hb hq
    have hformed : (d.foldl feed start).nest.Formed := by
      have h := formed_foldl (.make .leftBrace "" 0 :: d)
      have hopen : start.feed (.make .leftBrace "" 0) = start.nest := rfl
      rwa [List.foldl_cons, hopen, nest_foldl fun t ht => (hd t ht).2.1] at h
    obtain ⟨es, hes⟩ := hformed.drops_feed hc (mt between_nest.mp hb)
    -- No other block is open, so the brace that is dropped leaves the builder in this one.
    have hopened : (d.foldl feed start).nest.opened.dropWhile (! ·.isBlock) =
        [.block (d.foldl feed start).statements] := by
      rw [nest_opened, List.dropWhile_append_of_pos]
      · rfl
      · intro o ho
        have := List.countP_eq_zero.mp hstraight.1.countP o ho
        simpa using this
    rw [hes, hopened]
    exact nest_run_statements (b := ⟨.skip, [], (d.foldl feed start).statements, es⟩) hq

end Builder

/-- A block with mistakes in it is read as a block exactly if the last declaration in it is over at
the closing brace: then the block lists the declarations that could be read, and what is in front
of it and behind it is kept. Otherwise the closing brace is dropped, the block stays open to the end
of the input, and the block is lost with everything behind it that holds no closing brace. -/
theorem block_isolates_mistakes_iff (p d : List Token) (opening closing : Token)
    (hp : ∀ t ∈ p, t.kind ≠ .eof) (hquiet : (parse p).errors = [])
    (ho : opening.kind = .leftBrace) (hc : closing.kind = .rightBrace)
    (hd : ∀ t ∈ d, t.kind ∉ [.leftBrace, .rightBrace, .eof]) :
    ((∀ q, (parse q).errors = [] →
        ∃ body, (parse (p ++ (opening :: d ++ [closing]) ++ q)).statements =
          (parse p).statements ++ .block body :: (parse q).statements) ↔ Settled d) ∧
    (Settled d → ∀ q, parse (p ++ (opening :: d ++ [closing]) ++ q) =
      ⟨(parse p).statements ++ .block (parse d).statements :: (parse q).statements,
        (parse d).errors ++ (parse q).errors⟩) ∧
    (¬ Settled d → ∀ q, (∀ t ∈ q, t.kind ≠ .rightBrace) →
      (parse (p ++ (opening :: d ++ [closing]) ++ q)).statements = (parse p).statements) := by
  have hinner : ∀ t ∈ d, t.Inner := by
    intro t ht
    have := hd t ht
    simpa [Token.Inner] using this
  have hsplit : ∀ q, parse (p ++ (opening :: d ++ [closing]) ++ q) =
      ⟨(parse p).statements ++ (Builder.start.nest.run (d ++ closing :: q)).statements,
        (Builder.start.nest.run (d ++ closing :: q)).errors⟩ := by
    intro q
    have hopen : parse (opening :: d ++ closing :: q) =
        Builder.start.nest.run (d ++ closing :: q) := by
      have hfeed : Builder.start.feed opening = Builder.start.nest := by
        simp [Builder.feed, Builder.start, Builder.atDeclaration, Builder.atStatement, ho,
          Builder.enter, Builder.nest]
      rw [List.cons_append, parse, Builder.run, if_neg (by simp [ho]), hfeed]
    have hhead : ∀ t ∈ (opening :: d ++ closing :: q).head?, t.kind ≠ .else := by simp [ho]
    have happend := (Grammar.program_of_quiet hp hquiet).parse_append hhead
    rw [hopen] at happend
    simpa using happend
  have hblock := Builder.run_block hc hinner
  have hsettled : Settled d → ∀ q, parse (p ++ (opening :: d ++ [closing]) ++ q) =
      ⟨(parse p).statements ++ .block (parse d).statements :: (parse q).statements,
        (parse d).errors ++ (parse q).errors⟩ := by
    intro h q
    rw [hsplit, (hblock q).1 h]
  have hlost : ¬ Settled d → ∀ q, (∀ t ∈ q, t.kind ≠ .rightBrace) →
      (parse (p ++ (opening :: d ++ [closing]) ++ q)).statements = (parse p).statements := by
    intro h q hq
    rw [hsplit, (hblock q).2 h hq, List.append_nil]
  refine ⟨⟨fun h => ?_, fun h q _ => ⟨_, congrArg Parsed.statements (hsettled h q)⟩⟩,
    hsettled, hlost⟩
  by_contra hn
  obtain ⟨body, hbody⟩ := h [] rfl
  rw [hlost hn [] (by simp)] at hbody
  simp at hbody

/-- The tokens `output ;`, in which the value is missing. -/
def valueless : List Token :=
  [.make .output "output" 2, .make .semicolon ";" 2]

/-- The mistake in the block ends at its semicolon, so the block ends at its brace. -/
theorem block_isolates_mistakes_valueless :
    parse (openEnded ++ (.make .leftBrace "\x7b" 2 :: valueless ++ [.make .rightBrace "\x7d" 2]) ++
        halfMalformed) =
      ⟨[.ifThen (.lookup "a" 1) (.expression (.lookup "b" 1)), .block [], .output (.lookup "c" 3)],
        [.expectedExpression "';'" 2, .expectedExpression "';'" 2]⟩ := by
  have herrors : (parse valueless).errors = [.expectedExpression "';'" 2] := rfl
  have hsettled : Settled valueless :=
    ⟨by decide, by rw [herrors]; simp [SyntaxError.found?]⟩
  exact (block_isolates_mistakes_iff openEnded valueless (.make .leftBrace "\x7b" 2)
    (.make .rightBrace "\x7d" 2) (by decide) rfl rfl rfl (by decide)).2.1 hsettled halfMalformed

/-- The tokens `output 1`, in which the semicolon is missing. -/
def unended : List Token :=
  [.make .output "output" 1, .make .number "1" 1]

/-- The semicolon is missing in front of the brace, so the block is lost with what follows it. -/
theorem unended_block_lost :
    (parse (unended ++ [.make .semicolon ";" 1])).errors = [] ∧
    ¬ ∃ body, (parse ([] ++
        (.make .leftBrace "\x7b" 1 :: unended ++ [.make .rightBrace "\x7d" 1]) ++
        (unended ++ [.make .semicolon ";" 1]))).statements =
      (parse []).statements ++ .block body ::
        (parse (unended ++ [.make .semicolon ";" 1])).statements := by
  refine ⟨rfl, fun ⟨body, h⟩ => ?_⟩
  cases h

end ClosureLang
