import ClosureLang.Proofs.Likeness.Mirrors
import ClosureLang.Proofs.Relabelling.Trees

namespace ClosureLang

/-- Lines are changed by `f`, and nothing else. -/
def Likeness.relabelled (f : Nat → Nat) : Likeness :=
  { Likeness.same with line := fun l l' => l' = f l }

/-- The function value with other lines in its body. -/
def Value.relabel (f : Nat → Nat) : Value → Value
  | .closure c => .closure { c with body := c.body.map (Stmt.relabel f) }
  | v => v

def Frame.relabel (f : Nat → Nat) (frame : Frame) : Frame :=
  { frame with bindings := frame.bindings.map fun b => (b.1, b.2.relabel f) }

/-- The world with other lines in the bodies of its functions. -/
def World.relabel (f : Nat → Nat) (w : World) : World :=
  { w with store := { w.store with frames := w.store.frames.map (Frame.relabel f) } }

variable {f : Nat → Nat}

theorem Fault.like_relabelled_iff (x x' : Fault) :
    x.Like (.relabelled f) x' ↔ x' = x.relabel f := by
  constructor
  · rintro ⟨hl, hx⟩
    have hline : x'.line = f x.line := hl
    rw [hline] at hx
    exact hx
  · rintro rfl
    refine ⟨x.line_relabel f, ?_⟩
    rw [x.line_relabel f]
    rfl

theorem Literal.like_relabelled_iff (a a' : Literal) : a.Like (.relabelled f) a' ↔ a' = a := by
  constructor
  · intro h
    cases h with
    | number h => exact congrArg _ (Eq.symm h)
    | text | bool | nil => rfl
  · intro h
    subst h
    cases a' with
    | number x => exact .number rfl
    | text s => exact .text
    | bool b => exact .bool
    | nil => exact .nil

/-- What is related to its image alone is related so where it is optional. -/
theorem optional_rel_iff {α : Type} {R : α → α → Prop} {g : α → α}
    (hg : ∀ x x', R x x' ↔ x' = g x) {o o' : Option α} : Option.Rel R o o' ↔ o' = o.map g := by
  constructor
  · intro h
    cases h with
    | none => rfl
    | some h => exact congrArg some ((hg _ _).mp h)
  · intro h
    subst h
    cases o with
    | none => exact .none
    | some x => exact .some ((hg _ _).mpr rfl)

/-- What is related to its image alone is related so in lists. -/
theorem forall₂_iff_map {α : Type} {R : α → α → Prop} {g : α → α}
    (hg : ∀ x x', R x x' ↔ x' = g x) {l l' : List α} : List.Forall₂ R l l' ↔ l' = l.map g := by
  constructor
  · intro h
    induction h with
    | nil => rfl
    | cons hx _ ih => rw [(hg _ _).mp hx, ih, List.map_cons]
  · intro h
    subst h
    exact List.forall₂_map_right_iff.mpr (List.forall₂_same.mpr fun x _ => (hg _ _).mpr rfl)

mutual

theorem Expr.like_relabel : (e : Expr) → e.Like (.relabelled f) (e.relabel f)
  | .literal _ => .literal ((Literal.like_relabelled_iff _ _).mpr rfl)
  | .grouping e => .grouping e.like_relabel
  | .unary _ e _ => .unary e.like_relabel rfl
  | .binary a _ b _ => .binary a.like_relabel b.like_relabel rfl
  | .logical a _ b _ => .logical a.like_relabel b.like_relabel rfl
  | .lookup _ _ => .lookup rfl
  | .assign _ e _ => .assign e.like_relabel rfl
  | .call callee args _ => .call callee.like_relabel (Expr.like_relabelAll args) rfl

theorem Expr.like_relabelAll :
    (es : List Expr) → List.Forall₂ (Expr.Like (.relabelled f)) es (Expr.relabelAll f es)
  | [] => .nil
  | e :: es => .cons e.like_relabel (Expr.like_relabelAll es)

end

mutual

theorem Expr.eq_relabel : (e : Expr) → ∀ {e' : Expr}, e.Like (.relabelled f) e' → e' = e.relabel f
  | .literal _, _, .literal h => by rw [(Literal.like_relabelled_iff _ _).mp h]; rfl
  | .grouping e, _, .grouping h => by rw [e.eq_relabel h]; rfl
  | .unary _ e _, _, .unary h hl => by rw [e.eq_relabel h, hl]; rfl
  | .binary a _ b _, _, .binary ha hb hl => by rw [a.eq_relabel ha, b.eq_relabel hb, hl]; rfl
  | .logical a _ b _, _, .logical ha hb hl => by rw [a.eq_relabel ha, b.eq_relabel hb, hl]; rfl
  | .lookup _ _, _, .lookup hl => by rw [hl]; rfl
  | .assign _ e _, _, .assign h hl => by rw [e.eq_relabel h, hl]; rfl
  | .call callee args _, _, .call h ha hl => by
    rw [callee.eq_relabel h, Expr.eq_relabelAll args ha, hl]; rfl

theorem Expr.eq_relabelAll : (es : List Expr) → ∀ {es' : List Expr},
    List.Forall₂ (Expr.Like (.relabelled f)) es es' → es' = Expr.relabelAll f es
  | [], _, .nil => rfl
  | e :: es, _, .cons h hs => by rw [e.eq_relabel h, Expr.eq_relabelAll es hs]; rfl

end

theorem Expr.like_relabelled_iff (e e' : Expr) :
    e.Like (.relabelled f) e' ↔ e' = e.relabel f :=
  ⟨e.eq_relabel, fun h => h ▸ e.like_relabel⟩

theorem Expr.optional_like_relabelled_iff {e e' : Option Expr} :
    Option.Rel (Expr.Like (.relabelled f)) e e' ↔ e' = e.map (Expr.relabel f) :=
  optional_rel_iff Expr.like_relabelled_iff

mutual

theorem Stmt.like_relabel : (s : Stmt) → s.Like (.relabelled f) (s.relabel f)
  | .expression e => .expression e.like_relabel
  | .output e => .output e.like_relabel
  | .create _ _ _ => .create (Expr.optional_like_relabelled_iff.mpr rfl) rfl
  | .block body => .block (Stmt.like_relabelAll body)
  | .ifThen c yes => .ifThen c.like_relabel yes.like_relabel
  | .ifElse c yes no => .ifElse c.like_relabel yes.like_relabel no.like_relabel
  | .loop c body => .loop c.like_relabel body.like_relabel
  | .function _ _ body _ => .function (Stmt.like_relabelAll body) rfl
  | .giveBack _ _ => .giveBack (Expr.optional_like_relabelled_iff.mpr rfl) rfl

theorem Stmt.like_relabelAll :
    (body : List Stmt) → List.Forall₂ (Stmt.Like (.relabelled f)) body (Stmt.relabelAll f body)
  | [] => .nil
  | s :: rest => .cons s.like_relabel (Stmt.like_relabelAll rest)

end

mutual

theorem Stmt.eq_relabel : (s : Stmt) → ∀ {s' : Stmt}, s.Like (.relabelled f) s' → s' = s.relabel f
  | .expression e, _, .expression h => by rw [e.eq_relabel h]; rfl
  | .output e, _, .output h => by rw [e.eq_relabel h]; rfl
  | .create _ _ _, _, .create h hl => by rw [Expr.optional_like_relabelled_iff.mp h, hl]; rfl
  | .block body, _, .block h => by rw [Stmt.eq_relabelAll body h]; rfl
  | .ifThen c yes, _, .ifThen hc hy => by rw [c.eq_relabel hc, yes.eq_relabel hy]; rfl
  | .ifElse c yes no, _, .ifElse hc hy hn => by
    rw [c.eq_relabel hc, yes.eq_relabel hy, no.eq_relabel hn]; rfl
  | .loop c body, _, .loop hc hb => by rw [c.eq_relabel hc, body.eq_relabel hb]; rfl
  | .function _ _ body _, _, .function h hl => by rw [Stmt.eq_relabelAll body h, hl]; rfl
  | .giveBack _ _, _, .giveBack h hl => by rw [Expr.optional_like_relabelled_iff.mp h, hl]; rfl

theorem Stmt.eq_relabelAll : (body : List Stmt) → ∀ {body' : List Stmt},
    List.Forall₂ (Stmt.Like (.relabelled f)) body body' → body' = Stmt.relabelAll f body
  | [], _, .nil => rfl
  | s :: rest, _, .cons h hs => by rw [s.eq_relabel h, Stmt.eq_relabelAll rest hs]; rfl

end

theorem Stmt.all_like_relabelled_iff {body body' : List Stmt} :
    List.Forall₂ (Stmt.Like (.relabelled f)) body body' ↔ body' = body.map (Stmt.relabel f) := by
  rw [← Stmt.relabelAll_eq_map]
  exact ⟨Stmt.eq_relabelAll body, fun h => h ▸ Stmt.like_relabelAll body⟩

theorem Value.like_relabelled_iff (v v' : Value) :
    v.Like (.relabelled f) .same v' ↔ v' = v.relabel f := by
  constructor
  · intro h
    cases h with
    | number h => exact congrArg _ (Eq.symm h)
    | @closure c c' h =>
      obtain ⟨name, params, body, home, identity⟩ := c
      obtain ⟨name', params', body', home', identity'⟩ := c'
      obtain ⟨rfl, rfl, hb, hh, rfl⟩ := h
      cases hh
      cases Stmt.all_like_relabelled_iff.mp hb
      rfl
    | nil | bool | text | native => rfl
  · intro h
    subst h
    cases v with
    | closure c => exact .closure ⟨rfl, rfl, Stmt.all_like_relabelled_iff.mpr rfl, rfl, rfl⟩
    | number x => exact .number rfl
    | nil => exact .nil
    | bool b => exact .bool
    | text s => exact .text
    | native g => exact .native

theorem Frame.like_relabelled_iff (frame frame' : Frame) :
    frame.Like (.relabelled f) .same frame' ↔ frame' = frame.relabel f := by
  have hb (b b' : String × Value) :
      (b.1 = b'.1 ∧ b.2.Like (.relabelled f) .same b'.2) ↔ b' = (b.1, b.2.relabel f) := by
    rw [Value.like_relabelled_iff, Prod.ext_iff, eq_comm]
  obtain ⟨enclosing, bindings⟩ := frame
  obtain ⟨enclosing', bindings'⟩ := frame'
  constructor
  · rintro ⟨he, hs⟩
    cases eq_of_rel he
    cases (forall₂_iff_map hb).mp hs
    rfl
  · intro h
    cases h
    refine ⟨?_, (forall₂_iff_map hb).mpr rfl⟩
    cases enclosing with
    | none => exact .none
    | some j => exact .some rfl

namespace World

/-- The worlds that mirror each other up to their lines. -/
theorem mirrors_relabelled_iff {w w' : World} :
    w.Mirrors (.relabelled f) w' ↔ w' = w.relabel f := by
  have hframes : (∀ i : FrameId, Option.Rel (Frame.Like (.relabelled f) .same)
      w.store.frames[i]? w'.store.frames[i]?) ↔
      w'.store.frames = w.store.frames.map (Frame.relabel f) := by
    simp only [optional_rel_iff Frame.like_relabelled_iff, ← Array.getElem?_map]
    exact ⟨Array.ext_getElem?, fun h i => congrArg (·[i]?) h⟩
  constructor
  · rintro ⟨hf, hi, hs, ho⟩
    obtain ⟨⟨frames, identity⟩, scope, output⟩ := w
    obtain ⟨⟨frames', identity'⟩, scope', output'⟩ := w'
    cases hframes.mp hf
    cases hi
    cases hs
    cases ho
    rfl
  · intro h
    subst h
    exact ⟨hframes.mpr rfl, rfl, rfl, rfl⟩

/-- A program with other lines, in a world with other lines, runs to the same end with other
lines. -/
theorem interpret_relabelled (f : Nat → Nat) {w : World} (hw : w.WellFormed) (n : Nat)
    (body : List Stmt) :
    (w.relabel f).interpret n (body.map (Stmt.relabel f)) =
      (w.interpret n body).map fun r => (r.1.mapError (Fault.relabel f), r.2.relabel f) := by
  have hm : w.Mirrors (.relabelled f) (w.relabel f) := mirrors_relabelled_iff.mpr rfl
  have hb : List.Forall₂ (Stmt.Like (.relabelled f)) body (body.map (Stmt.relabel f)) :=
    Stmt.all_like_relabelled_iff.mpr rfl
  have hr := hm.interpret hw hb n
  generalize w.interpret n body = r at hr
  generalize (w.relabel f).interpret n (body.map (Stmt.relabel f)) = r' at hr
  cases hr with
  | none => rfl
  | @some a a' h =>
    obtain ⟨x, u⟩ := a
    obtain ⟨x', u'⟩ := a'
    obtain ⟨hx, -, hu⟩ := h
    cases mirrors_relabelled_iff.mp hu
    cases hx with
    | ok => rfl
    | error hf =>
      cases (Fault.like_relabelled_iff _ _).mp hf
      rfl

theorem initial_relabel (f : Nat → Nat) : initial.relabel f = initial := by
  have hframes : initial.store.frames =
      #[⟨none, [("add", .native .add), ("sqrt", .native .sqrt)]⟩] := rfl
  have hmap : initial.store.frames.map (Frame.relabel f) = initial.store.frames := by
    simp [hframes, Frame.relabel, Value.relabel]
  unfold relabel
  rw [hmap]

end World

end ClosureLang
