import ClosureLang.Proofs.Grammar.Formation
import ClosureLang.Proofs.Scopes.Nodes

namespace ClosureLang

/-- Around the place `p`, though not at it, stands a function. -/
def InFunction (program : List Stmt) (p : Path) : Prop :=
  ∃ q name params body line d, q <:+ p ∧ q ≠ p ∧
    Occurs program q (.stmt (.function name params body line)) d

theorem InFunction.part {program : List Stmt} {p : Path} (h : InFunction program p) (i : Nat) :
    InFunction program (i :: p) := by
  obtain ⟨q, name, params, body, line, d, hq, -, ho⟩ := h
  refine ⟨q, name, params, body, line, d, hq.trans (List.suffix_cons i p), ?_, ho⟩
  rintro rfl
  have hlen := hq.length_le
  simp at hlen

theorem Node.part_of_expr {e : Expr} {part : Node} (h : part ∈ (Node.expr e).parts) :
    ∃ e', part = .expr e' := by
  cases e with
  | call callee args line =>
    rcases List.mem_cons.mp h with rfl | h
    · exact ⟨callee, rfl⟩
    · obtain ⟨arg, -, rfl⟩ := List.mem_map.mp h
      exact ⟨arg, rfl⟩
  | literal | lookup => simp [Node.parts] at h
  | grouping | unary | assign => exact ⟨_, List.mem_singleton.mp h⟩
  | binary | logical =>
    simp only [Node.parts, List.mem_cons, List.not_mem_nil, or_false] at h
    rcases h with rfl | rfl <;> exact ⟨_, rfl⟩

theorem Stmt.formed_part {s part : Stmt} {inside : Bool} (hs : s.Formed inside)
    (hf : ∀ name params body line, s ≠ .function name params body line)
    (h : Node.stmt part ∈ (Node.stmt s).parts) : part.Formed inside := by
  cases s with
  | expression e | output e => simp [Node.parts] at h
  | create name initial line | giveBack initial line => cases initial <;> simp [Node.parts] at h
  | block body =>
    obtain ⟨u, hu, he⟩ := List.mem_map.mp h
    cases he
    exact formedAll_iff.mp hs part hu
  | ifThen condition yes | loop condition yes =>
    simp only [Node.parts, List.mem_cons, reduceCtorEq, Node.stmt.injEq, List.not_mem_nil,
      or_false, false_or] at h
    exact h ▸ hs.2
  | ifElse condition yes no =>
    simp only [Node.parts, List.mem_cons, reduceCtorEq, Node.stmt.injEq, List.not_mem_nil,
      or_false, false_or] at h
    rcases h with rfl | rfl
    · exact hs.1.2
    · exact hs.2.2
  | function name params body line => exact absurd rfl (hf name params body line)

/-- A statement in a formed program is in a function, or has returns in functions only. -/
theorem Occurs.inFunction_or_formed {program : List Stmt} (hp : ∀ s ∈ program, s.Formed false)
    {p : Path} {node : Node} {d : Nat} (h : Occurs program p node d) :
    InFunction program p ∨ ∀ s, node = .stmt s → s.Formed false := by
  induction h with
  | top h =>
    refine .inr ?_
    rintro s ⟨⟩
    exact hp _ (List.mem_of_getElem? h)
  | @part p node part d i h hi ih =>
    have hm : part ∈ node.parts := List.mem_of_getElem? hi
    rcases ih with hin | hformed
    · exact .inl (hin.part i)
    · cases node with
      | expr e =>
        obtain ⟨e', rfl⟩ := Node.part_of_expr hm
        exact .inr nofun
      | stmt s =>
        by_cases hf : ∃ name params body line, s = .function name params body line
        · obtain ⟨name, params, body, line, rfl⟩ := hf
          exact .inl ⟨p, name, params, body, line, d, List.suffix_cons i p, by simp, h⟩
        · refine .inr ?_
          rintro u rfl
          refine Stmt.formed_part (hformed s rfl) ?_ hm
          rintro name params body line rfl
          exact hf ⟨name, params, body, line, rfl⟩

/-- The end of a call is left before the end of the run. -/
def Remaining.InCall : Remaining → Prop
  | .outcome => False
  | .statements _ next | .round _ _ next | .blockEnd _ next => next.InCall
  | .callEnd _ _ => True

/-- The statement does not return out of the run: it is part of a call, or has its returns in
functions. -/
def Remaining.Holds (next : Remaining) (s : Stmt) : Prop :=
  next.InCall ∨ s.Formed false

mutual

/-- The value is for a statement of the run, and none that waits for it returns out of the run. -/
def Awaiting.Closed : Awaiting → Prop
  | .outcome => False
  | .operand _ _ next | .left _ _ _ next | .right _ _ _ next | .decision _ _ next
  | .assigned _ _ next | .callee _ _ next | .argument _ _ _ _ next => next.Closed
  | .discarded next | .printed next | .initial _ next => next.Closed
  | .thenBranch yes next => next.Holds yes ∧ next.Closed
  | .branches yes no next => next.Holds yes ∧ next.Holds no ∧ next.Closed
  | .condition _ body next => next.Holds body ∧ next.Closed
  | .given next => next.InCall ∧ next.Closed

/-- No statement that is left returns out of the run. -/
def Remaining.Closed : Remaining → Prop
  | .outcome => True
  | .statements rest next => (∀ s ∈ rest, next.Holds s) ∧ next.Closed
  | .round _ body next => next.Holds body ∧ next.Closed
  | .blockEnd _ next => next.Closed
  | .callEnd _ next => next.Closed

end

/-- The signal ends no run as a returned value. -/
def Signal.Held (next : Remaining) : Signal → Prop
  | .normal => True
  | .returned _ => next.InCall

def Machine.Closed : Machine → Prop
  | .evaluate _ next | .arguments _ _ _ _ next | .apply _ _ _ next | .give _ next
  | .raise _ next => next.Closed
  | .execute s next => next.Holds s ∧ next.Closed
  | .sequence body next => (∀ s ∈ body, next.Holds s) ∧ next.Closed
  | .finish s next => s.Held next ∧ next.Closed
  | .abort _ next => next.Closed

def Progress.Closed : Progress → Prop
  | .ended o => o = .signal .normal ∨ ∃ f, o = .fault f
  | .going m => m.Closed

namespace Machine

variable {w : World}

theorem closed_settle {r : Except Fault Value} {next : Awaiting} (h : next.Closed) :
    (settle r next).Closed := by
  cases r with
  | ok v => exact h
  | error f => exact h

theorem stepEvaluate_closed {e : Expr} {next : Awaiting} (h : next.Closed) :
    (stepEvaluate e next w).1.Closed := by
  cases e with
  | lookup name line => exact closed_settle h
  | literal | grouping | unary | binary | logical | assign | call => exact h

theorem stepApply_closed {callee : Value} {args : List Value} {line : Nat} {next : Awaiting}
    (h : next.Closed) : (stepApply callee args line next w).1.Closed := by
  cases callee with
  | closure f =>
    simp only [stepApply]
    split
    -- whatever the body of a function is, its returns end at the call
    next => exact ⟨fun _ _ => .inl trivial, h⟩
    next => exact h
  | native f =>
    simp only [stepApply]
    split
    next => exact closed_settle h
    next => exact h
  | nil | bool | number | text => exact h

theorem stepGive_closed {v : Value} {next : Awaiting} (h : next.Closed) :
    (stepGive v next w).1.Closed := by
  cases next with
  | outcome => exact h.elim
  | operand op line next => exact closed_settle h
  | right left op line next => exact closed_settle h
  | left | callee | argument => exact h
  | decision op right next =>
    simp only [stepGive]
    split
    next => exact h
    next => exact h
  | assigned name line next =>
    simp only [stepGive]
    split
    next => exact h
    next => exact h
  | discarded | printed | initial => exact ⟨trivial, h⟩
  | thenBranch yes next =>
    simp only [stepGive]
    split
    next => exact h
    next => exact ⟨trivial, h.2⟩
  | branches yes no next =>
    obtain ⟨hy, hn, h⟩ := h
    simp only [stepGive]
    split
    next => exact ⟨hy, h⟩
    next => exact ⟨hn, h⟩
  | condition condition body next =>
    simp only [stepGive]
    split
    next => exact ⟨h.1, h⟩
    next => exact ⟨trivial, h.2⟩
  | given next => exact h

theorem stepRaise_closed {f : Fault} {next : Awaiting} (h : next.Closed) :
    (stepRaise f next w).1.Closed := by
  cases next with
  | outcome => exact h.elim
  | operand | left | right | decision | assigned | callee | argument | discarded | printed
  | initial => exact h
  | thenBranch | condition | given => exact h.2
  | branches => exact h.2.2

theorem stepExecute_closed {s : Stmt} {next : Remaining} (hs : next.Holds s) (h : next.Closed) :
    (stepExecute s next w).1.Closed := by
  cases s with
  | create name initial line =>
    cases initial with
    | some e => exact h
    | none => exact ⟨trivial, h⟩
  | block body => exact ⟨fun u hu => hs.imp_right fun hf => Stmt.formedAll_iff.mp hf u hu, h⟩
  | ifThen condition yes => exact ⟨hs.imp_right And.right, h⟩
  | ifElse condition yes no =>
    exact ⟨hs.imp_right fun hf => hf.1.2, hs.imp_right fun hf => hf.2.2, h⟩
  | loop condition body => exact ⟨hs.imp_right And.right, h⟩
  | function name params body line => exact ⟨trivial, h⟩
  | giveBack value line =>
    have hin : next.InCall := hs.resolve_right (by simp [Stmt.Formed])
    cases value with
    | some e => exact ⟨hin, h⟩
    | none => exact ⟨hin, h⟩
  | expression | output => exact h

theorem stepFinish_closed {s : Signal} {next : Remaining} (hs : s.Held next) (h : next.Closed) :
    (stepFinish s next w).1.Closed := by
  cases next with
  | outcome =>
    cases s with
    | normal => exact .inl rfl
    | returned v => exact hs.elim
  | statements rest next =>
    cases s with
    | normal => exact h
    | returned v => exact ⟨hs, h.2⟩
  | round condition body next =>
    cases s with
    | normal => exact h
    | returned v => exact ⟨hs, h.2⟩
  | blockEnd scope next => cases s <;> exact ⟨hs, h⟩
  | callEnd scope next => cases s <;> exact h

theorem stepAbort_closed {f : Fault} {next : Remaining} (h : next.Closed) :
    (stepAbort f next w).1.Closed := by
  cases next with
  | outcome => exact .inr ⟨f, rfl⟩
  | statements | round => exact h.2
  | blockEnd | callEnd => exact h

/-- A step takes a returned value no further than to the end of the innermost call. -/
theorem step_closed {m : Machine} (h : m.Closed) : (step m w).1.Closed := by
  cases m with
  | evaluate e next => exact stepEvaluate_closed h
  | arguments callee done rest line next => cases rest <;> exact h
  | apply callee args line next => exact stepApply_closed h
  | give v next => exact stepGive_closed h
  | raise f next => exact stepRaise_closed h
  | execute s next => exact stepExecute_closed h.1 h.2
  | sequence body next =>
    cases body with
    | nil => exact ⟨trivial, h.2⟩
    | cons s rest =>
      obtain ⟨hs, hrest⟩ := List.forall_mem_cons.mp h.1
      exact ⟨hs, hrest, h.2⟩
  | finish s next => exact stepFinish_closed h.1 h.2
  | abort f next => exact stepAbort_closed h

/-- A run that returns nothing out of itself ends normally or with a fault. -/
theorem run_closed {n : Nat} {m : Machine} {w' : World} {o : Outcome} (hm : m.Closed)
    (h : run n m w = some (o, w')) : o = .signal .normal ∨ ∃ f, o = .fault f := by
  induction n generalizing m w with
  | zero => simp [run] at h
  | succ n ih =>
    have hp := step_closed (w := w) hm
    rcases run_succ_cases h with hs | ⟨m₁, w₁, hs, hr⟩
    · rw [hs] at hp
      exact hp
    · rw [hs] at hp
      exact ih hp hr

end Machine

/-- Whatever mistakes are in the tokens, every return that is read stands in a function, and a
statement that is read, executed in any world, ends normally or with a fault, if it ends. -/
theorem returns_stay_in_calls (ts : List Token) :
    (∀ p value line d, Occurs (parse ts).statements p (.stmt (.giveBack value line)) d →
      ∃ q name params body line' d', q <:+ p ∧ q ≠ p ∧
        Occurs (parse ts).statements q (.stmt (.function name params body line')) d') ∧
    ∀ s ∈ (parse ts).statements, ∀ n w o w', World.execute n s w = some (o, w') →
      o = .signal .normal ∨ ∃ f, o = .fault f := by
  constructor
  · intro p value line d h
    refine (h.inFunction_or_formed (parse_formed ts)).resolve_right ?_
    intro hformed
    have hout : (Stmt.giveBack value line).Formed false := hformed _ rfl
    simp [Stmt.Formed] at hout
  · intro s hs n w o w' h
    exact Machine.run_closed (m := .execute s .outcome) ⟨.inr (parse_formed ts s hs), trivial⟩ h

/-- The tokens `func f() { return; } return nil; f();`, with a return that is in no function. -/
def strayReturn : List Token :=
  [.make .func "func" 1, .make .identifier "f" 1, .make .leftParen "(" 1, .make .rightParen ")" 1,
   .make .leftBrace "\x7b" 1, .make .return "return" 1, .make .semicolon ";" 1,
   .make .rightBrace "\x7d" 1, .make .return "return" 2, .make .nil "nil" 2,
   .make .semicolon ";" 2, .make .identifier "f" 3, .make .leftParen "(" 3,
   .make .rightParen ")" 3, .make .semicolon ";" 3]

/-- The return outside of the function is complained about, and the other one is kept. -/
theorem returns_stay_in_calls_strayReturn :
    (parse strayReturn).errors = [.returnOutsideFunction 2] ∧
    (∃ q name params body line d, q <:+ [0, 0] ∧ q ≠ [0, 0] ∧
      Occurs (parse strayReturn).statements q (.stmt (.function name params body line)) d) ∧
    ∃ w o w', World.initial.execute 9 (.function "f" [] [.giveBack none 1] 1) =
        some (.signal .normal, w) ∧
      w.execute 20 (.expression (.call (.lookup "f" 3) [] 3)) = some (o, w') ∧
      (o = .signal .normal ∨ ∃ f, o = .fault f) := by
  have hread : parse strayReturn =
      ⟨[.function "f" [] [.giveBack none 1] 1, .expression (.call (.lookup "f" 3) [] 3)],
        [.returnOutsideFunction 2]⟩ := rfl
  have hruns : ∃ w o w', World.initial.execute 9 (.function "f" [] [.giveBack none 1] 1) =
        some (.signal .normal, w) ∧
      w.execute 20 (.expression (.call (.lookup "f" 3) [] 3)) = some (o, w') :=
    ⟨_, _, _, rfl, by with_unfolding_all rfl⟩
  obtain ⟨w, o, w', h₁, h₂⟩ := hruns
  obtain ⟨hplaces, hends⟩ := returns_stay_in_calls strayReturn
  refine ⟨congrArg Parsed.errors hread, ?_, w, o, w', h₁, h₂, ?_⟩
  · have hf : Occurs (parse strayReturn).statements [0]
        (.stmt (.function "f" [] [.giveBack none 1] 1)) 0 := .top (by rw [hread]; rfl)
    exact hplaces [0, 0] none 1 1 (.part hf rfl)
  · exact hends _ (by simp [hread]) 20 w o w' h₂

end ClosureLang
