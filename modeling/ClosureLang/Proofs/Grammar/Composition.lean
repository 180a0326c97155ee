import ClosureLang.Proofs.Grammar.Completeness
import ClosureLang.Proofs.Grammar.Soundness

namespace ClosureLang

namespace Builder

variable {b b' : Builder} {t : Token} {use : Use} {pending : List Pending} {e : Expr}
  {ss : List Stmt} {es : List SyntaxError}

/-- The builder on top of statements and complaints recorded earlier, the last one first. -/
def onto (ss : List Stmt) (es : List SyntaxError) (b : Builder) : Builder :=
  { b with statements := b.statements ++ ss, errors := b.errors ++ es }

@[simp] theorem onto_position : (b.onto ss es).position = b.position := rfl

@[simp] theorem onto_opened : (b.onto ss es).opened = b.opened := rfl

@[simp] theorem onto_moveTo {p : Position} :
    (b.onto ss es).moveTo p = (b.moveTo p).onto ss es := rfl

@[simp] theorem onto_enter {construct : Open} {p : Position} :
    (b.onto ss es).enter construct p = (b.enter construct p).onto ss es := rfl

@[simp] theorem onto_report {x : SyntaxError} :
    (b.onto ss es).report x = (b.report x).onto ss es := rfl

@[simp] theorem onto_abandon {x : SyntaxError} {p : Position} :
    (b.onto ss es).abandon x p = (b.abandon x p).onto ss es := rfl

@[simp] theorem onto_fail {x : SyntaxError} :
    (b.onto ss es).fail x t = (b.fail x t).onto ss es := rfl

@[simp] theorem onto_ite {p : Prop} [Decidable p] :
    (if p then b.onto ss es else b'.onto ss es) = (if p then b else b').onto ss es := by
  split <;> rfl

@[simp] theorem onto_need {kind : TokenKind} {message : String} :
    (b.onto ss es).need kind message t (b'.onto ss es) =
      (b.need kind message t b').onto ss es := by
  unfold need
  split <;> rfl

@[simp] theorem onto_checkArguments :
    (b.onto ss es).checkArguments pending t = (b.checkArguments pending t).onto ss es := by
  unfold checkArguments
  split
  · split <;> rfl
  · rfl

@[simp] theorem onto_atOperand :
    (b.onto ss es).atOperand use pending t = (b.atOperand use pending t).onto ss es := by
  unfold atOperand
  simp only [onto_checkArguments]
  split <;> rfl

@[simp] theorem onto_afterExpression :
    (b.onto ss es).afterExpression use e t = (b.afterExpression use e t).onto ss es := by
  cases use <;> simp [afterExpression]

@[simp] theorem onto_atEnd :
    (b.onto ss es).atEnd use pending e t = (b.atEnd use pending e t).onto ss es := by
  unfold atEnd
  split <;> simp

@[simp] theorem onto_atOperator :
    (b.onto ss es).atOperator use pending e t = (b.atOperator use pending e t).onto ss es := by
  unfold atOperator
  split
  · rfl
  · rfl
  · split
    · rfl
    · exact onto_atEnd

@[simp] theorem onto_atStatement :
    (b.onto ss es).atStatement t = (b.atStatement t).onto ss es := by
  unfold atStatement
  split <;> simp

@[simp] theorem onto_atDeclaration :
    (b.onto ss es).atDeclaration t = (b.atDeclaration t).onto ss es := by
  unfold atDeclaration
  simp only [onto_opened]
  split
  case h_6 => exact onto_atStatement
  all_goals rfl

@[simp] theorem onto_atForCondition {initial : Option Stmt} :
    (b.onto ss es).atForCondition initial t = (b.atForCondition initial t).onto ss es := by
  simp [atForCondition]

@[simp] theorem onto_afterStatement (s : Stmt) (opened : List Open) :
    (b.onto ss es).afterStatement t s opened = (b.afterStatement t s opened).onto ss es := by
  induction opened generalizing s with
  | nil => exact onto_atDeclaration (b := { b with opened := [], statements := s :: b.statements })
  | cons construct rest ih =>
    cases construct with
    | block done => exact onto_atDeclaration (b := { b with opened := .block (s :: done) :: rest })
    | body head done =>
      exact onto_atDeclaration (b := { b with opened := .body head (s :: done) :: rest })
    | forInitial => exact onto_atForCondition (b := { b with opened := rest })
    | thenBranch condition =>
      unfold afterStatement
      split
      · rfl
      · exact ih _
    | elseBranch condition yes => exact ih _
    | loopBody condition => exact ih _
    | forBody initial condition increment => exact ih _

@[simp] theorem onto_atParameter {name : String} {line : Nat} {done : List String} :
    (b.onto ss es).atParameter name line done t =
      (b.atParameter name line done t).onto ss es := by
  simp [atParameter]

/-- A token is read without regard to what was recorded. -/
theorem onto_feed : (b.onto ss es).feed t = (b.feed t).onto ss es := by
  unfold feed
  rw [onto_position]
  cases b.position with
  | forStart =>
    dsimp only
    split
    · rfl
    · rfl
    · exact onto_atOperand (b := { b with opened := .forInitial :: b.opened })
  | skip =>
    dsimp only
    split <;> simp
  | _ => simp

theorem onto_finish : (b.onto ss es).finish t =
    ⟨ss.reverse ++ (b.finish t).statements, es.reverse ++ (b.finish t).errors⟩ := by
  simp only [finish, onto_feed, onto_opened]
  simp [onto]

/-- What was recorded before is never looked at again: it stands in front of what a reading that
starts anew records. -/
theorem onto_run (ts : List Token) : (b.onto ss es).run ts =
    ⟨ss.reverse ++ (b.run ts).statements, es.reverse ++ (b.run ts).errors⟩ := by
  induction ts generalizing b with
  | nil => exact onto_finish
  | cons t ts ih =>
    unfold run
    split
    · exact onto_finish
    · rw [onto_feed]
      exact ih

/-- The end of a list of tokens is an end token on line 0. -/
theorem run_append_endOfInput (ts : List Token) : b.run (ts ++ [.endOfInput 0]) = b.run ts := by
  induction ts generalizing b with
  | nil => rfl
  | cons t ts ih =>
    rw [List.cons_append, run, run, ih]

end Builder

open Grammar

/-- Behind a program reading starts anew, unless an `else` follows. -/
theorem Grammar.Program.parse_append {fits : Nat → Prop} {ts us : List Token} {ss : List Stmt}
    {d : List SyntaxError} (h : Program fits ts ss d) (hu : ∀ t ∈ us.head?, t.kind ≠ .else) :
    parse (ts ++ us) = ⟨ss ++ (parse us).statements, d ++ (parse us).errors⟩ := by
  have hcons : ∀ (e : Token) (rest : List Token), e.kind ≠ .else →
      parse (ts ++ e :: rest) =
        ⟨ss ++ (parse (e :: rest)).statements, d ++ (parse (e :: rest)).errors⟩ := by
    intro e rest he
    have hb : Builder.mk .declaration [] ss.reverse d.reverse =
        Builder.start.onto ss.reverse d.reverse := rfl
    rw [parse, h.run_append he, hb, Builder.onto_run, List.reverse_reverse, List.reverse_reverse]
    rfl
  cases us with
  | nil =>
    have hend := hcons (.endOfInput 0) [] (by decide)
    simp only [parse, Builder.run_append_endOfInput] at hend
    rw [List.append_nil]
    exact hend
  | cons e rest => exact hcons e rest (hu e rfl)

/-- Tokens that are read without complaint are a program of the grammar. -/
theorem Grammar.program_of_quiet {ts : List Token} (hend : ∀ t ∈ ts, t.kind ≠ .eof)
    (h : (parse ts).errors = []) : Program (· ≤ 255) ts (parse ts).statements [] := by
  have hall : ts.takeWhile (·.kind ≠ .eof) = ts := by
    rw [List.takeWhile_eq_self_iff]
    simpa using hend
  have hp := Builder.spells_start.run h
  rw [hall] at hp
  exact hp

/-- No program begins with `else`. -/
theorem head_ne_else {ts : List Token} (h : (parse ts).errors = []) :
    ∀ t ∈ ts.head?, t.kind ≠ .else := by
  cases ts with
  | nil => nofun
  | cons t ts =>
    intro t' ht' hk
    cases Option.some.inj ht'
    have hf : (Builder.start.feed t).errors = [.expectedExpression t.describe t.line] := by
      simp [Builder.start, Builder.feed, Builder.atDeclaration, Builder.atStatement,
        Builder.atOperand, Builder.checkArguments, Builder.fail, Builder.abandon, hk]
    have hp := Builder.errors_run (b := Builder.start.feed t) ts
    rw [parse, Builder.run, if_neg (by simp [hk])] at h
    rw [hf, h] at hp
    simp at hp

/-- Tokens without an end token that are read without complaint are read in the same way whatever
follows, and what follows is read as if it stood alone, unless it begins with `else`; whether it
has an end token, and whether it is a program, does not matter. So a program that comes in pieces,
each of them a program, gives the statements of the pieces in order. -/
theorem parse_compositional :
    (∀ p q : List Token, (∀ t ∈ p, t.kind ≠ .eof) → (parse p).errors = [] →
      (∀ t ∈ q.head?, t.kind ≠ .else) →
      (parse (p ++ q)).statements = (parse p).statements ++ (parse q).statements ∧
      (parse (p ++ q)).errors = (parse q).errors) ∧
    ∀ pieces : List (List Token),
      (∀ p ∈ pieces, (∀ t ∈ p, t.kind ≠ .eof) ∧ (parse p).errors = []) →
      parse pieces.flatten = ⟨pieces.flatMap fun p => (parse p).statements, []⟩ := by
  constructor
  · intro p q hend hp hq
    rw [(program_of_quiet hend hp).parse_append hq]
    exact ⟨rfl, rfl⟩
  · intro pieces hpieces
    induction pieces with
    | nil => rfl
    | cons p rest ih =>
      obtain ⟨⟨hend, hp⟩, hrest⟩ := List.forall_mem_cons.mp hpieces
      have hr := ih hrest
      have hq := head_ne_else (congrArg Parsed.errors hr)
      rw [List.flatten_cons, (program_of_quiet hend hp).parse_append hq, hr]
      rfl

/-- The statement `if (a) b;`, which an `else` would continue. -/
def openEnded : List Token :=
  [.make .if "if" 1, .make .leftParen "(" 1, .make .identifier "a" 1, .make .rightParen ")" 1,
   .make .identifier "b" 1, .make .semicolon ";" 1]

/-- The tokens `output ; output c;`, an end token and an `else`. -/
def halfMalformed : List Token :=
  [.make .output "output" 2, .make .semicolon ";" 2, .make .output "output" 3,
   .make .identifier "c" 3, .make .semicolon ";" 3, .endOfInput 4, .make .else "else" 5]

/-- The `if` is read alike in front of a malformed program and in front of itself. -/
theorem parse_compositional_openEnded :
    parse (openEnded ++ halfMalformed) =
      ⟨[.ifThen (.lookup "a" 1) (.expression (.lookup "b" 1)), .output (.lookup "c" 3)],
        [.expectedExpression "';'" 2]⟩ ∧
    parse (openEnded ++ (openEnded ++ [])) =
      ⟨[.ifThen (.lookup "a" 1) (.expression (.lookup "b" 1)),
        .ifThen (.lookup "a" 1) (.expression (.lookup "b" 1))], []⟩ := by
  have hend : ∀ t ∈ openEnded, t.kind ≠ .eof := by decide
  have hp : (parse openEnded).errors = [] := rfl
  obtain ⟨hboth, hpieces⟩ := parse_compositional
  obtain ⟨hs, he⟩ := hboth openEnded halfMalformed hend hp (by decide)
  have h := hpieces [openEnded, openEnded] (by simpa using ⟨hend, hp⟩)
  exact ⟨congrArg₂ Parsed.mk hs he, h⟩

end ClosureLang
