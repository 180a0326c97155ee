import ClosureLang.Proofs.Scopes.Capture
import ClosureLang.Proofs.Scopes.Returns

namespace ClosureLang

namespace Stmt

/-- The statements that are executed, or not, as a part of a statement. -/
def branches : Stmt → List Stmt
  | .ifThen _ yes => [yes]
  | .ifElse _ yes no => [yes, no]
  | .loop _ body => [body]
  | _ => []

def listed : Stmt → List Stmt
  | .block body | .function _ _ body _ => body
  | _ => []

/-- The statement is no declaration, nor is a branch of it, or a branch of a branch. -/
def Sparing : Stmt → Prop
  | .expression _ | .output _ | .block _ | .giveBack _ _ => True
  | .create _ _ _ | .function _ _ _ _ => False
  | .ifThen _ yes => yes.Sparing
  | .ifElse _ yes no => yes.Sparing ∧ no.Sparing
  | .loop _ body => body.Sparing

theorem Formed.branches {inside : Bool} {s : Stmt} (h : s.Formed inside) :
    ∀ part ∈ s.branches, part.declared? = none ∧ part.Formed inside := by
  cases s with
  | ifThen condition yes | loop condition yes | ifElse condition yes no =>
    simpa [Stmt.branches, Stmt.Formed] using h
  | expression | output | create | block | function | giveBack => simp [Stmt.branches]

/-- A statement that is no declaration has none as a branch either. -/
theorem Formed.sparing {inside : Bool} :
    {s : Stmt} → s.Formed inside → s.declared? = none → s.Sparing
  | .expression _, _, _ | .output _, _, _ | .block _, _, _ | .giveBack _ _, _, _ => trivial
  | .ifThen _ _, h, _ | .loop _ _, h, _ => h.2.sparing h.1
  | .ifElse _ _ _, h, _ => ⟨h.1.2.sparing h.1.1, h.2.2.sparing h.2.1⟩

/-- A statement in a statement is one that it lists, or a branch. -/
theorem listed_or_branch {s part : Stmt} {i : Nat}
    (h : (Node.stmt s).parts[i]? = some (.stmt part)) :
    s.listed[i]? = some part ∨ part ∈ s.branches := by
  have hm := List.mem_of_getElem? h
  cases s with
  | expression e | output e => simp [Node.parts] at hm
  | create name initial line | giveBack initial line => cases initial <;> simp [Node.parts] at hm
  | block body | function _ _ body _ => exact .inl (by simpa [Node.parts, Stmt.listed] using h)
  | ifThen condition yes | loop condition yes | ifElse condition yes =>
    exact .inr (by simpa [Node.parts, Stmt.branches] using hm)

end Stmt

/-- Whatever stands in a formed program is formed. -/
theorem Occurs.formed {program : List Stmt} (hp : ∀ s ∈ program, s.Formed false) {p : Path}
    {node : Node} {d : Nat} (h : Occurs program p node d) :
    ∀ s, node = .stmt s → ∃ inside, s.Formed inside := by
  induction h with
  | top h =>
    rintro s ⟨⟩
    exact ⟨false, hp _ (List.mem_of_getElem? h)⟩
  | @part p node part d i h hi ih =>
    rintro s rfl
    have hm := List.mem_of_getElem? hi
    cases node with
    | expr e =>
      obtain ⟨e', he⟩ := Node.part_of_expr hm
      cases he
    | stmt u =>
      obtain ⟨inside, hu⟩ := ih u rfl
      by_cases hf : ∃ name params body line, u = .function name params body line
      · obtain ⟨name, params, body, line, rfl⟩ := hf
        obtain ⟨t, ht, he⟩ := List.mem_map.mp hm
        cases he
        exact ⟨true, Stmt.formedAll_iff.mp hu s ht⟩
      · refine ⟨inside, Stmt.formed_part hu ?_ hm⟩
        rintro name params body line rfl
        exact hf ⟨name, params, body, line, rfl⟩

/-- A declaration in a formed program stands in a list of statements. -/
theorem Occurs.listed {program : List Stmt} (hp : ∀ s ∈ program, s.Formed false) {p : Path}
    {s : Stmt} {d : Nat} (h : Occurs program p (.stmt s) d) (hd : s.declared? ≠ none) :
    (∃ i, p = [i] ∧ program[i]? = some s) ∨
      ∃ i q parent d', p = i :: q ∧ Occurs program q (.stmt parent) d' ∧
        parent.listed[i]? = some s := by
  cases h with
  | @top i _ h => exact .inl ⟨i, rfl, h⟩
  | @part p node _ d i h hi =>
    cases node with
    | expr e =>
      obtain ⟨e', he⟩ := Node.part_of_expr (List.mem_of_getElem? hi)
      cases he
    | stmt parent =>
      obtain ⟨inside, hf⟩ := h.formed hp parent rfl
      rcases Stmt.listed_or_branch hi with hl | hb
      · exact .inr ⟨i, p, parent, _, rfl, h, hl⟩
      · exact absurd (hf.branches s hb).1 hd

mutual

/-- If the current frame is `scope`, no statement that is under way or left declares a name in frame
`i`. -/
def Awaiting.Spares (i scope : FrameId) : Awaiting → Prop
  | .outcome => True
  | .operand _ _ next | .left _ _ _ next | .right _ _ _ next | .decision _ _ next
  | .assigned _ _ next | .callee _ _ next | .argument _ _ _ _ next => next.Spares i scope
  | .discarded next | .printed next | .given next => next.Spares i scope
  | .initial _ next => scope ≠ i ∧ next.Spares i scope
  | .thenBranch yes next => (scope = i → yes.Sparing) ∧ next.Spares i scope
  | .branches yes no next =>
    (scope = i → yes.Sparing) ∧ (scope = i → no.Sparing) ∧ next.Spares i scope
  | .condition _ body next => (scope = i → body.Sparing) ∧ next.Spares i scope

/-- If the current frame is `scope`, no statement that is left declares a name in frame `i`. -/
def Remaining.Spares (i scope : FrameId) : Remaining → Prop
  | .outcome => True
  | .statements _ next => scope ≠ i ∧ next.Spares i scope
  | .round _ body next => (scope = i → body.Sparing) ∧ next.Spares i scope
  | .blockEnd outer next => next.Spares i outer
  | .callEnd outer next => next.Spares i outer

end

/-- If the current frame is `scope`, the machine declares no name in frame `i`: it runs lists of
statements elsewhere. -/
def Machine.Spares (i scope : FrameId) : Machine → Prop
  | .evaluate _ next | .arguments _ _ _ _ next | .apply _ _ _ next | .give _ next
  | .raise _ next => next.Spares i scope
  | .execute s next => (scope = i → s.Sparing) ∧ next.Spares i scope
  | .sequence _ next => scope ≠ i ∧ next.Spares i scope
  | .finish _ next | .abort _ next => next.Spares i scope

def Progress.Spares (i scope : FrameId) : Progress → Prop
  | .ended _ => True
  | .going m => m.Spares i scope

namespace Machine

variable {i : FrameId} {w : World}

theorem Spares.declaring? {m : Machine} {name : String} (h : m.Spares i w.scope)
    (hd : m.declaring? = some name) : w.scope ≠ i := by
  intro hi
  unfold Machine.declaring? at hd
  split at hd
  next => exact h.1 hi
  next => exact h.1 hi
  next => exact h.1 hi
  next => cases hd

theorem spares_settle {r : Except Fault Value} {next : Awaiting} {scope : FrameId}
    (h : next.Spares i scope) : (settle r next).Spares i scope := by
  cases r with
  | ok v => exact h
  | error f => exact h

theorem stepEvaluate_spares {e : Expr} {next : Awaiting} (h : next.Spares i w.scope) :
    (stepEvaluate e next w).1.Spares i (stepEvaluate e next w).2.scope := by
  cases e with
  | lookup name line => exact spares_settle h
  | literal | grouping | unary | binary | logical | assign | call => exact h

theorem stepApply_spares {callee : Value} {args : List Value} {line : Nat} {next : Awaiting}
    (h : next.Spares i w.scope) (hi : i < w.store.frames.size) :
    (stepApply callee args line next w).1.Spares i (stepApply callee args line next w).2.scope := by
  cases callee with
  | closure f =>
    simp only [stepApply]
    split
    next => exact ⟨Nat.ne_of_gt hi, h⟩
    next => exact h
  | native f =>
    simp only [stepApply]
    split
    next => exact spares_settle h
    next => exact h
  | nil | bool | number | text => exact h

theorem stepGive_spares {v : Value} {next : Awaiting} (h : next.Spares i w.scope) :
    (stepGive v next w).1.Spares i (stepGive v next w).2.scope := by
  cases next with
  | outcome => trivial
  | operand op line next => exact spares_settle h
  | right left op line next => exact spares_settle h
  | left | callee | argument | discarded | printed | given => exact h
  | decision op right next =>
    simp only [stepGive]
    split
    next => exact h
    next => exact h
  | assigned name line next =>
    simp only [stepGive]
    split
    next => exact h
    next => exact h
  | initial name next => exact h.2
  | thenBranch yes next =>
    simp only [stepGive]
    split
    next => exact h
    next => exact h.2
  | branches yes no next =>
    obtain ⟨hy, hn, h⟩ := h
    simp only [stepGive]
    split
    next => exact ⟨hy, h⟩
    next => exact ⟨hn, h⟩
  | condition condition body next =>
    simp only [stepGive]
    split
    next => exact ⟨h.1, h⟩
    next => exact h.2

theorem stepRaise_spares {f : Fault} {next : Awaiting} (h : next.Spares i w.scope) :
    (stepRaise f next w).1.Spares i (stepRaise f next w).2.scope := by
  cases next with
  | outcome => trivial
  | operand | left | right | decision | assigned | callee | argument | discarded | printed
  | given => exact h
  | initial | thenBranch | condition => exact h.2
  | branches => exact h.2.2

theorem stepExecute_spares {s : Stmt} {next : Remaining} (hs : w.scope = i → s.Sparing)
    (h : next.Spares i w.scope) (hi : i < w.store.frames.size) :
    (stepExecute s next w).1.Spares i (stepExecute s next w).2.scope := by
  cases s with
  | create name initial line =>
    cases initial with
    | some e => exact ⟨hs, h⟩
    | none => exact h
  | block body => exact ⟨Nat.ne_of_gt hi, h⟩
  | ifThen condition yes => exact ⟨hs, h⟩
  | ifElse condition yes no => exact ⟨fun he => (hs he).1, fun he => (hs he).2, h⟩
  | loop condition body => exact ⟨hs, h⟩
  | giveBack value line => cases value <;> exact h
  | expression | output | function => exact h

theorem stepFinish_spares {s : Signal} {next : Remaining} (h : next.Spares i w.scope) :
    (stepFinish s next w).1.Spares i (stepFinish s next w).2.scope := by
  cases next with
  | outcome => cases s <;> trivial
  | statements rest next =>
    cases s with
    | normal => exact h
    | returned v => exact h.2
  | round condition body next =>
    cases s with
    | normal => exact h
    | returned v => exact h.2
  | blockEnd outer next => cases s <;> exact h
  | callEnd outer next => cases s <;> exact h

theorem stepAbort_spares {f : Fault} {next : Remaining} (h : next.Spares i w.scope) :
    (stepAbort f next w).1.Spares i (stepAbort f next w).2.scope := by
  cases next with
  | outcome => trivial
  | statements | round => exact h.2
  | blockEnd | callEnd => exact h

theorem step_spares {m : Machine} (h : m.Spares i w.scope) (hi : i < w.store.frames.size) :
    (step m w).1.Spares i (step m w).2.scope := by
  cases m with
  | evaluate e next => exact stepEvaluate_spares h
  | arguments callee done rest line next => cases rest <;> exact h
  | apply callee args line next => exact stepApply_spares h hi
  | give v next => exact stepGive_spares h
  | raise f next => exact stepRaise_spares h
  | execute s next => exact stepExecute_spares h.1 h.2 hi
  | sequence body next =>
    cases body with
    | nil => exact h.2
    | cons s rest => exact ⟨fun he => absurd he h.1, h⟩
  | finish s next => exact stepFinish_spares h
  | abort f next => exact stepAbort_spares h

/-- A frame that is spared keeps its names. -/
theorem Leads.declares_spared {m m' : Machine} {w' : World} (hl : Leads m w m' w')
    (h : m.Spares i w.scope) (hi : i < w.store.frames.size) (name : String) :
    w'.store.declares i name = w.store.declares i name := by
  induction hl with
  | refl => rfl
  | @head m m₁ m' w w₁ w' hs _ ih =>
    have hstep := step_spares h hi
    have hnames := m.step_declares w hi name
    have hle := (m.step_change w).size_le
    rw [hs] at hstep hnames hle
    have hsame : w₁.store.declares i name = w.store.declares i name := by
      rw [Bool.eq_iff_iff, hnames]
      exact or_iff_left fun hd => h.declaring? hd.1 hd.2
    rw [ih hstep (Nat.lt_of_lt_of_le hi hle), hsame]

theorem Passes.declares_spared {m : Machine} {w' : World} (hp : m.Passes w w')
    (h : m.Spares i w.scope) (hi : i < w.store.frames.size) (name : String) :
    w'.store.declares i name = w.store.declares i name := by
  obtain ⟨m', hl⟩ := hp.leads
  exact hl.declares_spared h hi name

end Machine

/-- Whatever mistakes are in the tokens, every declaration that is read is in a list of statements,
that of the program, of a block or of a function body, and none is a branch. So a statement that was
read, at any depth, and is no declaration leaves the frame in which it runs with the names it had,
at every step and however it ends. -/
theorem declarations_in_lists_only (ts : List Token) :
    (∀ p s d, Occurs (parse ts).statements p (.stmt s) d →
      (∀ part ∈ s.branches, part.declared? = none) ∧
      (s.declared? ≠ none →
        (∃ i, p = [i] ∧ (parse ts).statements[i]? = some s) ∨
          ∃ i q parent d', p = i :: q ∧ Occurs (parse ts).statements q (.stmt parent) d' ∧
            parent.listed[i]? = some s)) ∧
    ∀ p s d, Occurs (parse ts).statements p (.stmt s) d → s.declared? = none →
      ∀ w w', w.scope < w.store.frames.size → (Machine.execute s .outcome).Passes w w' →
        ∀ name, w'.store.declares w.scope name = w.store.declares w.scope name := by
  have hp := parse_formed ts
  constructor
  · intro p s d h
    obtain ⟨inside, hf⟩ := h.formed hp s rfl
    exact ⟨fun part hpart => (hf.branches part hpart).1, h.listed hp⟩
  · intro p s d h hd w w' hw hpass name
    obtain ⟨inside, hf⟩ := h.formed hp s rfl
    have hspares : (Machine.execute s .outcome).Spares w.scope w.scope :=
      ⟨fun _ => hf.sparing hd, trivial⟩
    exact hpass.declares_spared hspares hw name

/-- The tokens `if (true) create x; { create y; }`, with a declaration in the place of a branch. -/
def declaredBranch : List Token :=
  [.make .if "if" 1, .make .leftParen "(" 1, .make .true "true" 1, .make .rightParen ")" 1,
   .make .create "create" 1, .make .identifier "x" 1, .make .semicolon ";" 1,
   .make .leftBrace "\x7b" 2, .make .create "create" 2, .make .identifier "y" 2,
   .make .semicolon ";" 2, .make .rightBrace "\x7d" 2, .endOfInput 2]

/-- The declaration in the place of a branch is complained about, and the one in the block is
kept. -/
theorem declarations_in_lists_only_declaredBranch :
    (parse declaredBranch).errors.length = 1 ∧
    (∃ i q parent d, [0, 0] = i :: q ∧
      Occurs (parse declaredBranch).statements q (.stmt parent) d ∧
      parent.listed[i]? = some (.create "y" none 2)) ∧
    ∃ w, World.initial.execute 9 (.block [.create "y" none 2]) = some (.signal .normal, w) ∧
      w.store.declares 1 "y" ∧ w.store.declares 0 "y" = World.initial.store.declares 0 "y" := by
  have hread : (parse declaredBranch).statements = [.block [.create "y" none 2]] := rfl
  have hblock : Occurs (parse declaredBranch).statements [0]
      (.stmt (.block [.create "y" none 2])) 0 := .top (by rw [hread]; rfl)
  have hrun : ∃ w, World.initial.execute 9 (.block [.create "y" none 2]) =
      some (.signal .normal, w) ∧ w.store.declares 1 "y" := ⟨_, rfl, by decide⟩
  obtain ⟨w, hw, hy⟩ := hrun
  obtain ⟨hplaces, hnames⟩ := declarations_in_lists_only declaredBranch
  refine ⟨rfl, ?_, w, hw, hy, ?_⟩
  · have hlisted := (hplaces [0, 0] _ _ (.part hblock rfl)).2 nofun
    exact hlisted.resolve_left nofun
  · exact hnames [0] _ 0 hblock rfl _ w (by decide) (.inr ⟨9, _, hw⟩) "y"

end ClosureLang
