import ClosureLang.Proofs.Descent.Recovery
import ClosureLang.Proofs.Recovery.Boundaries

namespace ClosureLang

mutual

/-- The keywords that a statement and its parts begin with. -/
def Stmt.keywords : Stmt → Nat
  | .expression _ => 0
  | .output _ | .create _ _ _ | .giveBack _ _ => 1
  | .block body => Stmt.allKeywords body
  | .ifThen _ yes => 1 + yes.keywords
  | .ifElse _ yes no => 1 + yes.keywords + no.keywords
  | .loop _ body => 1 + body.keywords
  | .function _ _ body _ => 1 + Stmt.allKeywords body

def Stmt.allKeywords : List Stmt → Nat
  | [] => 0
  | s :: rest => s.keywords + Stmt.allKeywords rest

end

theorem Stmt.allKeywords_append (ss us : List Stmt) :
    allKeywords (ss ++ us) = allKeywords ss + allKeywords us := by
  induction ss with
  | nil => simp [allKeywords]
  | cons s ss ih => simp [allKeywords, ih, Nat.add_assoc]

@[simp] theorem Stmt.allKeywords_reverse (ss : List Stmt) :
    allKeywords ss.reverse = allKeywords ss := by
  induction ss with
  | nil => rfl
  | cons s ss ih =>
    simp only [List.reverse_cons, allKeywords_append, ih, allKeywords]
    omega

/-- The keywords of a statement that may be missing. -/
def Stmt.optionalKeywords : Option Stmt → Nat
  | none => 0
  | some s => s.keywords

theorem Stmt.forLoop_keywords (initial : Option Stmt) (condition increment : Option Expr)
    (body : Stmt) : (forLoop initial condition increment body).keywords =
      1 + optionalKeywords initial + body.keywords := by
  cases initial <;> cases increment <;>
    simp only [forLoop, keywords, allKeywords, optionalKeywords] <;> omega

/-- One for a token that a statement begins with. -/
def Token.keywords (t : Token) : Nat :=
  if Descent.resumes t.kind then 1 else 0

theorem Token.keywords_of_eof (t : Token) (ht : t.kind = .eof) : t.keywords = 0 := by
  simp [keywords, ht, Descent.resumes]

/-- The keywords in front of the first end token. -/
def readKeywords : List Token → Nat
  | [] => 0
  | t :: ts => if t.kind = .eof then 0 else t.keywords + readKeywords ts

/-- The keywords that were read of a construct, but for the part being read. -/
def Open.keywords : Open → Nat
  | .block done => Stmt.allKeywords done
  | .body _ done => 1 + Stmt.allKeywords done
  | .thenBranch _ | .loopBody _ | .forInitial => 1
  | .elseBranch _ yes => 1 + yes.keywords
  | .forBody initial _ _ => 1 + Stmt.optionalKeywords initial

/-- The keywords in front of an expression in its statement. -/
def Use.keywords : Use → Nat
  | .expression => 0
  | .output | .initial _ _ | .ifCondition | .loopCondition | .result _ => 1
  | .forCondition first | .forIncrement first _ => 1 + Stmt.optionalKeywords first

/-- The keywords in front of a position in the statement being read. -/
@[simp] def Position.keywords : Position → Nat
  | .declaration | .statement | .discard | .skip => 0
  | .operand use _ | .operator use _ _ | .firstArgument use _ _ => use.keywords
  | .completed s => s.keywords
  | .forCondition initial | .forIncrement initial _ => 1 + Stmt.optionalKeywords initial
  | _ => 1

namespace Builder

/-- The keywords of what is recorded and of the constructs that are open. -/
def heldKeywords (b : Builder) : Nat :=
  (b.opened.map Open.keywords).sum + Stmt.allKeywords b.statements

/-- The keywords of all that was read and not dropped. -/
def keywords (b : Builder) : Nat :=
  b.position.keywords + b.heldKeywords

/-- At most `n` keywords were kept, and all of them if there are no more complaints than `m`. -/
structure Keeps (b : Builder) (n m : Nat) : Prop where
  le : b.keywords ≤ n
  eq : b.errors.length ≤ m → b.keywords = n

variable {b : Builder} {t : Token} {use : Use} {pending : List Pending} {e : Expr} {n m : Nat}

theorem Keeps.of_eq (h : b.keywords = n) : b.Keeps n m :=
  ⟨h.le, fun _ => h⟩

theorem Keeps.of_sum {n' : Nat} (h : b.Keeps n m) (hn : n = n') : b.Keeps n' m :=
  hn ▸ h

@[simp] theorem keywords_moveTo {p : Position} :
    (b.moveTo p).keywords = p.keywords + b.heldKeywords := rfl

@[simp] theorem keywords_enter {construct : Open} {p : Position} :
    (b.enter construct p).keywords = p.keywords + (construct.keywords + b.heldKeywords) := by
  simp [keywords, heldKeywords, enter, Nat.add_assoc]

@[simp] theorem heldKeywords_complain {d : List SyntaxError} :
    (b.complain d).heldKeywords = b.heldKeywords := rfl

theorem keeps_abandon {x : SyntaxError} {p : Position} (hp : p.keywords = 0)
    (hn : b.heldKeywords ≤ n) (hm : m ≤ b.errors.length) : (b.abandon x p).Keeps n m := by
  have hsum : ((b.opened.dropWhile (! ·.isBlock)).map Open.keywords).sum ≤
      (b.opened.map Open.keywords).sum :=
    ((List.dropWhile_sublist _).map _).sum_le_sum fun _ _ => Nat.zero_le _
  constructor
  · unfold heldKeywords at hn
    simp only [keywords, heldKeywords, abandon, hp]
    omega
  · intro hlength
    simp only [abandon, List.length_cons] at hlength
    omega

@[simp] theorem keywords_afterDropping : (afterDropping t).keywords = 0 := by
  unfold afterDropping
  split <;> rfl

theorem keeps_fail {x : SyntaxError} (hn : b.heldKeywords ≤ n) (hm : m ≤ b.errors.length) :
    (b.fail x t).Keeps n m :=
  keeps_abandon keywords_afterDropping hn hm

theorem keeps_need {kind : TokenKind} {message : String} {next : Builder}
    (hn : b.heldKeywords ≤ n) (hm : m ≤ b.errors.length) (h : t.kind = kind → next.keywords = n) :
    (b.need kind message t next).Keeps n m := by
  unfold need
  split
  next hk => exact .of_eq (h hk)
  next => exact keeps_fail hn hm

theorem keeps_ite {q : Prop} [Decidable q] {b b' : Builder} (h : q → b.keywords = n)
    (h' : ¬ q → b'.Keeps n m) : (if q then b else b').Keeps n m := by
  split
  next hq => exact .of_eq (h hq)
  next hq => exact h' hq

theorem keeps_atOperand : (b.atOperand use pending t).Keeps
    (use.keywords + b.heldKeywords + t.keywords) b.errors.length := by
  unfold atOperand
  rw [checkArguments_eq_complain]
  dsimp only
  split
  case h_10 =>
    refine keeps_fail ?_ ?_
    · rw [heldKeywords_complain]
      omega
    · simp [complain]
  all_goals
    rename_i hk
    exact .of_eq (by simp [Token.keywords, Descent.resumes, hk])

theorem keeps_afterExpression : (b.afterExpression use e t).Keeps
    (use.keywords + b.heldKeywords + t.keywords) b.errors.length := by
  cases use <;>
    refine keeps_need (by omega) le_rfl fun hk => ?_ <;>
    simp [Use.keywords, Open.keywords, Stmt.keywords, Token.keywords, Descent.resumes, hk]

theorem keeps_atEnd : (b.atEnd use pending e t).Keeps
    (use.keywords + b.heldKeywords + t.keywords) b.errors.length := by
  have hmove : ∀ {kind : TokenKind} {rest : List Pending} {e : Expr}, t.kind = kind →
      Descent.resumes kind = false →
      (b.moveTo (.operator use rest e)).keywords = use.keywords + b.heldKeywords + t.keywords := by
    intro kind rest e hk hkey
    simp [Token.keywords, hk, hkey]
  unfold atEnd
  split
  · exact keeps_afterExpression
  · exact keeps_need (by omega) le_rfl fun hk => hmove hk rfl
  · refine keeps_ite (fun hk => ?_) fun _ => keeps_need (by omega) le_rfl fun hk => hmove hk rfl
    simp [Token.keywords, hk, Descent.resumes]
  · exact keeps_fail (by omega) le_rfl

theorem keeps_atOperator : (b.atOperator use pending e t).Keeps
    (use.keywords + b.heldKeywords + t.keywords) b.errors.length := by
  unfold atOperator
  split
  next hk => exact .of_eq (by simp [Token.keywords, Descent.resumes, hk])
  next hk => exact .of_eq (by simp [Token.keywords, Descent.resumes, hk])
  next =>
    split
    next op hop =>
      have hkey : Descent.resumes t.kind = false := by
        cases hk : t.kind <;> simp_all [Connective.ofKind?, BinaryOp.ofKind?, Descent.resumes]
      exact .of_eq (by simp [Token.keywords, hkey])
    next => exact keeps_atEnd

theorem keeps_atStatement :
    (b.atStatement t).Keeps (b.heldKeywords + t.keywords) b.errors.length := by
  unfold atStatement
  split
  case h_5 hk =>
    split
    · exact .of_eq (by simp [Token.keywords, Descent.resumes, hk, Nat.add_comm])
    · exact keeps_abandon rfl (by omega) le_rfl
  case h_7 => exact keeps_atOperand.of_sum (by simp [Use.keywords])
  all_goals
    rename_i hk
    exact .of_eq (by simp [Use.keywords, Open.keywords, Stmt.allKeywords,
      Token.keywords, Descent.resumes, hk, Nat.add_comm])

theorem keeps_atDeclaration :
    (b.atDeclaration t).Keeps (b.heldKeywords + t.keywords) b.errors.length := by
  unfold atDeclaration
  split
  case h_6 => exact keeps_atStatement
  case h_4 hk ho | h_5 hk ho =>
    refine .of_eq ?_
    simp only [keywords, heldKeywords, ho, Position.keywords, Stmt.keywords, Open.keywords,
      Token.keywords, Descent.resumes, hk, Stmt.allKeywords_reverse, List.map_cons, List.sum_cons]
    simp [Nat.add_assoc]
  all_goals
    rename_i hk
    exact .of_eq (by simp [Token.keywords, Descent.resumes, hk, Nat.add_comm])

theorem keeps_atForCondition {initial : Option Stmt} : (b.atForCondition initial t).Keeps
    (1 + Stmt.optionalKeywords initial + b.heldKeywords + t.keywords) b.errors.length := by
  refine keeps_ite (fun hk => ?_) fun _ => keeps_atOperand
  simp [Token.keywords, hk, Descent.resumes]

theorem keeps_afterStatement (s : Stmt) (opened : List Open) : (b.afterStatement t s opened).Keeps
    (s.keywords + ((opened.map Open.keywords).sum + Stmt.allKeywords b.statements) + t.keywords)
    b.errors.length := by
  induction opened generalizing s with
  | nil =>
    exact (keeps_atDeclaration
      (b := { b with opened := [], statements := s :: b.statements })).of_sum
      (by simp [heldKeywords, Stmt.allKeywords])
  | cons construct rest ih =>
    cases construct with
    | block done =>
      refine (keeps_atDeclaration (b := { b with opened := .block (s :: done) :: rest })).of_sum ?_
      simp [heldKeywords, Open.keywords, Stmt.allKeywords]
      omega
    | body head done =>
      refine (keeps_atDeclaration
        (b := { b with opened := .body head (s :: done) :: rest })).of_sum ?_
      simp [heldKeywords, Open.keywords, Stmt.allKeywords]
      omega
    | forInitial =>
      refine (keeps_atForCondition (b := { b with opened := rest })).of_sum ?_
      simp [heldKeywords, Open.keywords, Stmt.optionalKeywords]
      omega
    | thenBranch condition =>
      refine keeps_ite (fun hk => ?_) fun _ => (ih _).of_sum ?_
      · simp [keywords, heldKeywords, Open.keywords, Token.keywords, Descent.resumes, hk]
        omega
      · simp [Open.keywords, Stmt.keywords]
        omega
    | elseBranch condition yes | loopBody condition =>
      refine (ih _).of_sum ?_
      simp [Open.keywords, Stmt.keywords]
      omega
    | forBody initial condition increment =>
      refine (ih _).of_sum ?_
      simp [Open.keywords, Stmt.forLoop_keywords]
      omega

theorem keeps_atParameter {name : String} {line : Nat} {done : List String} :
    (b.atParameter name line done t).Keeps (1 + b.heldKeywords + t.keywords)
      b.errors.length := by
  have hnext : ∀ {b : Builder}, t.kind = .identifier →
      (b.moveTo (.parameterRest name line (t.lexeme :: done))).keywords =
        1 + b.heldKeywords + t.keywords := by
    intro b hk
    simp [Token.keywords, Descent.resumes, hk]
  have hheld : b.heldKeywords ≤ 1 + b.heldKeywords + t.keywords := by omega
  unfold atParameter
  split
  · exact keeps_need (b := b.report _) hheld (Nat.le_succ _) hnext
  · exact keeps_need hheld le_rfl hnext

/-- Reading a token keeps its keyword unless it is dropped with a complaint. -/
theorem keeps_feed (hd : b.position ≠ .discard) :
    (b.feed t).Keeps (b.keywords + t.keywords) b.errors.length := by
  have hheld : ∀ {n : Nat}, b.heldKeywords ≤ n + b.heldKeywords + t.keywords := by
    intro n
    omega
  unfold feed keywords
  cases hp : b.position with
  | declaration => exact keeps_atDeclaration.of_sum (by simp)
  | statement => exact keeps_atStatement.of_sum (by simp)
  | operand use pending => exact keeps_atOperand
  | operator use pending e => exact keeps_atOperator
  | firstArgument use pending callee =>
    refine keeps_ite (fun hk => ?_) fun _ => keeps_atOperand
    simp [Token.keywords, Descent.resumes, hk]
  | completed s => exact keeps_afterStatement s b.opened
  | createRest name line =>
    refine keeps_ite (fun hk => ?_) fun _ => keeps_need hheld le_rfl fun hk => ?_ <;>
      simp [Use.keywords, Stmt.keywords, Token.keywords, Descent.resumes, hk]
  | firstParameter name line =>
    refine keeps_ite (fun hk => ?_) fun _ => keeps_atParameter
    simp [Token.keywords, Descent.resumes, hk]
  | parameter name line done => exact keeps_atParameter
  | parameterRest name line done =>
    refine keeps_ite (fun hk => ?_) fun _ => keeps_need hheld le_rfl fun hk => ?_ <;>
      simp [Token.keywords, Descent.resumes, hk]
  | forStart =>
    dsimp only
    split
    next hk =>
      exact .of_eq (by simp [Stmt.optionalKeywords, Token.keywords, Descent.resumes, hk])
    next hk =>
      refine .of_eq ?_
      simp [Open.keywords, Token.keywords, Descent.resumes, hk]
      omega
    next =>
      refine (keeps_atOperand (b := { b with opened := .forInitial :: b.opened })).of_sum ?_
      simp [heldKeywords, Use.keywords, Open.keywords, Nat.add_assoc]
  | forCondition initial => exact keeps_atForCondition
  | forIncrement initial condition =>
    refine keeps_ite (fun hk => ?_) fun _ => keeps_atOperand
    simp [Open.keywords, Token.keywords, Descent.resumes, hk]
  | resultStart line =>
    refine keeps_ite (fun hk => ?_) fun _ => keeps_atOperand
    simp [Stmt.keywords, Token.keywords, Descent.resumes, hk]
  | discard => exact absurd hp hd
  | skip =>
    dsimp only
    split
    case h_8 =>
      have hkey : Descent.resumes t.kind = false := by
        unfold Descent.resumes
        split <;> simp_all
      refine .of_eq ?_
      rw [keywords_moveTo, keywords_afterDropping]
      simp [Token.keywords, hkey]
    all_goals exact keeps_atDeclaration.of_sum (by simp)
  | _ =>
    refine keeps_need hheld le_rfl fun hk => ?_
    simp [Use.keywords, Open.keywords, Stmt.allKeywords, Token.keywords, Descent.resumes, hk]

/-- Reading a token adds the keyword of that token at most. -/
theorem keywords_feed_le : (b.feed t).keywords ≤ b.keywords + t.keywords := by
  by_cases hd : b.position = .discard
  · have hfeed : b.feed t = b.moveTo (afterDropping t) := by simp [feed, hd]
    rw [hfeed, keywords_moveTo, keywords_afterDropping]
    unfold keywords
    omega
  · exact (keeps_feed hd).le

theorem Spells.opened_eq_nil {ts : List Token} (h : b.Spells ts) (hp : b.position = .declaration)
    (hb : b.opened.countP Open.isBlock = 0) : b.opened = [] := by
  obtain ⟨place, inside, us, vs, ho, hr, rfl⟩ := h
  rw [hp] at hr
  cases hr
  generalize b.opened = opened at ho hb
  cases ho with
  | nil => rfl
  | block | body => simp [Open.isBlock] at hb

/-- What is read holds at most the keywords of the tokens. -/
theorem allKeywords_run_le (ts : List Token) :
    Stmt.allKeywords (b.run ts).statements ≤ b.keywords + readKeywords ts := by
  have hend : ∀ {b : Builder} {t : Token}, t.kind = .eof →
      Stmt.allKeywords (b.finish t).statements ≤ b.keywords := by
    intro b t ht
    have hle := keywords_feed_le (b := b) (t := t)
    rw [t.keywords_of_eof ht] at hle
    simp only [finish, Stmt.allKeywords_reverse]
    unfold keywords heldKeywords at hle ⊢
    omega
  induction ts generalizing b with
  | nil => exact hend rfl
  | cons t ts ih =>
    unfold run readKeywords
    split
    next ht => exact hend ht
    next =>
      have hle := keywords_feed_le (b := b) (t := t)
      have hrest := ih (b := b.feed t)
      omega

/-- What is read without complaint keeps every keyword. -/
theorem Spells.allKeywords_run {ts us : List Token} (h : b.Spells us)
    (he : (b.run ts).errors = []) :
    Stmt.allKeywords (b.run ts).statements = b.keywords + readKeywords ts := by
  have hkeep : ∀ {b : Builder} {t : Token} {us : List Token}, b.Spells us →
      (b.feed t).errors = [] → (b.feed t).keywords = b.keywords + t.keywords := by
    intro b t us h he
    exact (keeps_feed h.not_recovering.2).eq (by simp [he])
  have hend : ∀ {b : Builder} {t : Token} {us : List Token}, b.Spells us → t.kind = .eof →
      (b.finish t).errors = [] → Stmt.allKeywords (b.finish t).statements = b.keywords := by
    intro b t us h ht he
    unfold Builder.finish at he ⊢
    rw [List.reverse_eq_nil_iff, List.append_eq_nil_iff, List.replicate_eq_nil_iff] at he
    obtain ⟨hb, he⟩ := he
    have hfeed := hkeep h he
    cases feed_takes h he with
    | word hk => exact absurd ht hk
    | stop _ hp h =>
      rw [t.keywords_of_eof ht, Builder.keywords, heldKeywords, hp, h.opened_eq_nil hp hb] at hfeed
      simpa using hfeed
  induction ts generalizing b us with
  | nil => exact hend h rfl he
  | cons t ts ih =>
    unfold Builder.run readKeywords
    unfold Builder.run at he
    split at he
    next ht =>
      simpa [ht] using hend h ht he
    next ht =>
      have hquiet : (b.feed t).errors = [] := by
        have hp := errors_run (b := b.feed t) ts
        rw [he] at hp
        simpa using List.prefix_nil.mp hp
      cases feed_takes h hquiet with
      | word _ h' =>
        rw [if_neg ht, if_neg ht, ih h' he, hkeep h hquiet, Nat.add_assoc]
      | stop hk => exact absurd hk ht

theorem keywords_start : start.keywords = 0 := rfl

end Builder

/-- Every keyword in tokens that are read without complaint begins a statement that is kept. -/
theorem allKeywords_parse {ts : List Token} (h : (parse ts).errors = []) :
    Stmt.allKeywords (parse ts).statements = readKeywords ts := by
  have hrun := Builder.spells_start.allKeywords_run h
  rwa [Builder.keywords_start, Nat.zero_add] at hrun

/-- Every statement that is kept, but for blocks and expressions, begins with a keyword of its
own. -/
theorem allKeywords_parse_le (ts : List Token) :
    Stmt.allKeywords (parse ts).statements ≤ readKeywords ts := by
  have hrun := Builder.allKeywords_run_le (b := Builder.start) ts
  rwa [Builder.keywords_start, Nat.zero_add] at hrun

end ClosureLang
