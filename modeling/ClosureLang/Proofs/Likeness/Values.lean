import ClosureLang.Machine
import ClosureLang.Proofs.Likeness.Trees

namespace ClosureLang

/-- Which frames of two stores stand for each other. A frame of the first store may be spare: it has
no frame of its own in the second store, but stands for what the frame around it stands for. -/
structure Pairing where
  twin : FrameId → FrameId → Prop
  /-- The spare frames, each with the frame around it. -/
  spare : List (FrameId × FrameId)

namespace Pairing

/-- The frames stand for each other alone. -/
def Core (p : Pairing) (i j : FrameId) : Prop :=
  p.twin i j ∧ ∀ k, (i, k) ∉ p.spare

/-- Frames that stand for each other still do. -/
def Keeps (p q : Pairing) : Prop :=
  ∀ ⦃i j : FrameId⦄, p.twin i j → q.twin i j

/-- Frames are added to the pairing, none of them spare. -/
structure Extends (p q : Pairing) : Prop where
  keeps : p.Keeps q
  spare : q.spare = p.spare

theorem Extends.refl (p : Pairing) : p.Extends p :=
  ⟨fun _ _ => id, rfl⟩

theorem Extends.trans {p q r : Pairing} (h : p.Extends q) (h' : q.Extends r) : p.Extends r :=
  ⟨fun _ _ ht => h'.keeps (h.keeps ht), h'.spare.trans h.spare⟩

theorem Extends.core {p q : Pairing} (h : p.Extends q) {i j : FrameId} (hc : p.Core i j) :
    q.Core i j :=
  ⟨h.keeps hc.1, h.spare ▸ hc.2⟩

end Pairing

section

variable (L : Likeness) (p : Pairing)

/-- Functions of one identity from declarations that are alike. -/
structure Closure.Like (f f' : Closure) : Prop where
  name : f.name = f'.name
  params : f.params = f'.params
  body : List.Forall₂ (Stmt.Like L) f.body f'.body
  home : p.twin f.home f'.home
  identity : f.identity = f'.identity

inductive Value.Like : Value → Value → Prop where
  | nil : Like .nil .nil
  | bool {b : Bool} : Like (.bool b) (.bool b)
  | number {x x' : Float} (h : L.number x x') : Like (.number x) (.number x')
  | text {s : String} : Like (.text s) (.text s)
  | closure {f f' : Closure} (h : f.Like L p f') : Like (.closure f) (.closure f')
  | native {f : Native} : Like (.native f) (.native f)

inductive Signal.Like : Signal → Signal → Prop where
  | normal : Like .normal .normal
  | returned {v v' : Value} (h : v.Like L p v') : Like (.returned v) (.returned v')

inductive Outcome.Like : Outcome → Outcome → Prop where
  | value {v v' : Value} (h : v.Like L p v') : Like (.value v) (.value v')
  | signal {s s' : Signal} (h : s.Like L p s') : Like (.signal s) (.signal s')
  | fault {f f' : Fault} (h : f.Like L f') : Like (.fault f) (.fault f')

end

variable {L : Likeness} {p : Pairing}

namespace Value.Like

variable {v v' u u' : Value}

theorem ofLiteral {a a' : Literal} (h : a.Like L a') :
    (Value.ofLiteral a).Like L p (.ofLiteral a') := by
  cases h with
  | number h => exact .number h
  | text => exact .text
  | bool => exact .bool
  | nil => exact .nil

theorem extend {q : Pairing} (hq : p.Keeps q) (h : v.Like L p v') : v.Like L q v' := by
  cases h with
  | closure h => exact .closure { h with home := hq h.home }
  | nil => exact .nil
  | bool => exact .bool
  | number h => exact .number h
  | text => exact .text
  | native => exact .native

theorem truthy (h : v.Like L p v') : v.truthy = v'.truthy := by
  cases h <;> rfl

theorem display (h : v.Like L p v') : v.display = v'.display := by
  cases h with
  | number h => exact L.render h
  | closure h => simp [Value.display, h.name]
  | nil | bool | text | native => rfl

theorem same (hv : v.Like L p v') (hu : u.Like L p u') : v.same u = v'.same u' := by
  cases hv with
  | number h =>
    cases hu with
    | number h' => exact L.equal h h'
    | nil | bool | text | closure | native => rfl
  | closure h =>
    cases hu with
    | closure h' => simp [Value.same, h.identity, h'.identity]
    | nil | bool | number | text | native => rfl
  | nil | bool | text | native => cases hu <;> rfl

end Value.Like

theorem Likeness.Result.normal_iff {r r' : Except Fault Signal}
    (h : L.Result (Signal.Like L p) r r') : r = .ok .normal ↔ r' = .ok .normal := by
  cases h with
  | error h => simp
  | ok h => cases h <;> simp

theorem UnaryOp.apply_like (op : UnaryOp) {v v' : Value} {l l' : Nat} (hv : v.Like L p v')
    (hl : L.line l l') : L.Result (Value.Like L p) (op.apply v l) (op.apply v' l') := by
  cases op with
  | not => exact .ok (hv.truthy ▸ .bool)
  | negate =>
    cases hv with
    | number h => exact .ok (.number (L.neg h))
    | nil | bool | text | closure | native => exact .error ⟨hl, rfl⟩

theorem numberOperands_like (op : BinaryOp) {v v' u u' : Value} {l l' : Nat}
    (hv : v.Like L p v') (hu : u.Like L p u') (hl : L.line l l') :
    L.Result (fun x x' => L.number x.1 x'.1 ∧ L.number x.2 x'.2) (numberOperands op v u l)
      (numberOperands op v' u' l') := by
  cases hv with
  | number h =>
    cases hu with
    | number h' => exact .ok ⟨h, h'⟩
    | nil | bool | text | closure | native => exact .error ⟨hl, rfl⟩
  | nil | bool | text | closure | native => exact .error ⟨hl, rfl⟩

theorem addValues_like {v v' u u' : Value} {l l' : Nat} (hv : v.Like L p v')
    (hu : u.Like L p u') (hl : L.line l l') :
    L.Result (Value.Like L p) (addValues v u l) (addValues v' u' l') := by
  have hd : v.display ++ u.display = v'.display ++ u'.display := by rw [hv.display, hu.display]
  cases hu with
  | text =>
    have ht : ∀ (v : Value) (s : String) (l : Nat),
        addValues v (.text s) l = .ok (.text (v.display ++ s)) := by
      intro v s l
      cases v <;> rfl
    rw [ht, ht, hv.display]
    exact .ok .text
  | number h' =>
    cases hv with
    | number h => exact .ok (.number (L.add h h'))
    | text => exact .ok (hd ▸ .text)
    | nil | bool | closure | native => exact .error ⟨hl, rfl⟩
  | nil | bool | closure | native =>
    cases hv with
    | text => exact .ok (hd ▸ .text)
    | nil | bool | number | closure | native => exact .error ⟨hl, rfl⟩

theorem arithmetic_like (op : BinaryOp) {v v' u u' : Value} {l l' : Nat} (hv : v.Like L p v')
    (hu : u.Like L p u') (hl : L.line l l') :
    L.Result (Value.Like L p) (arithmetic op v u l) (arithmetic op v' u' l') := by
  unfold arithmetic
  refine (numberOperands_like op hv hu hl).bind ?_
  rintro ⟨x, y⟩ ⟨x', y'⟩ ⟨hx, hy⟩
  cases op with
  | sub => exact .ok (.number (L.sub hx hy))
  | mul => exact .ok (.number (L.mul hx hy))
  | div =>
    dsimp only
    rw [← L.zero hy]
    cases hz : y == 0 with
    | true => exact .error ⟨hl, rfl⟩
    | false => exact .ok (.number (L.div hx hy hz))
  | add | less | greater | lessEqual | greaterEqual | equal | notEqual => exact .error ⟨hl, rfl⟩

theorem comparison_like (op : BinaryOp) {v v' u u' : Value} {l l' : Nat} (hv : v.Like L p v')
    (hu : u.Like L p u') (hl : L.line l l') :
    L.Result (Value.Like L p) (comparison op v u l) (comparison op v' u' l') := by
  have hs : (v == u) = (v' == u') := hv.same hu
  have ho : L.Result (Value.Like L p)
      (numberOperands op v u l >>= fun x => .ok (.bool (ordered op x.1 x.2)))
      (numberOperands op v' u' l' >>= fun x => .ok (.bool (ordered op x.1 x.2))) := by
    refine (numberOperands_like op hv hu hl).bind ?_
    rintro ⟨x, y⟩ ⟨x', y'⟩ ⟨hx, hy⟩
    exact .ok (L.order hx hy op ▸ .bool)
  cases op with
  | equal => exact .ok (hs ▸ .bool)
  | notEqual => exact .ok (hs ▸ .bool)
  | add | sub | mul | div | less | greater | lessEqual | greaterEqual => exact ho

/-- A binary operator gives results that are alike, faults included. -/
theorem BinaryOp.apply_like (op : BinaryOp) {v v' u u' : Value} {l l' : Nat}
    (hv : v.Like L p v') (hu : u.Like L p u') (hl : L.line l l') :
    L.Result (Value.Like L p) (op.apply v u l) (op.apply v' u' l') := by
  cases op with
  | add => exact addValues_like hv hu hl
  | sub => exact arithmetic_like .sub hv hu hl
  | mul => exact arithmetic_like .mul hv hu hl
  | div => exact arithmetic_like .div hv hu hl
  | less => exact comparison_like .less hv hu hl
  | greater => exact comparison_like .greater hv hu hl
  | lessEqual => exact comparison_like .lessEqual hv hu hl
  | greaterEqual => exact comparison_like .greaterEqual hv hu hl
  | equal => exact comparison_like .equal hv hu hl
  | notEqual => exact comparison_like .notEqual hv hu hl

theorem LogicalOp.decided_like (op : LogicalOp) {v v' : Value} (hv : v.Like L p v') :
    op.decided v = op.decided v' := by
  cases op <;> simp [LogicalOp.decided, hv.truthy]

/-- A provided function gives results that are alike, faults included. -/
theorem Native.apply_like (f : Native) {args args' : List Value} {l l' : Nat}
    (ha : List.Forall₂ (Value.Like L p) args args') (hl : L.line l l') :
    L.Result (Value.Like L p) (f.apply args l) (f.apply args' l') := by
  cases f with
  | add =>
    cases ha with
    | nil => exact .error ⟨hl, rfl⟩
    | cons hv ha =>
      cases ha with
      | nil => cases hv <;> exact .error ⟨hl, rfl⟩
      | cons hu ha =>
        cases ha with
        | nil =>
          cases hv with
          | number h =>
            cases hu with
            | number h' => exact .ok (.number (L.add h h'))
            | nil | bool | text | closure | native => exact .error ⟨hl, rfl⟩
          | nil | bool | text | closure | native => exact .error ⟨hl, rfl⟩
        | cons => cases hv <;> cases hu <;> exact .error ⟨hl, rfl⟩
  | sqrt =>
    cases ha with
    | nil => exact .error ⟨hl, rfl⟩
    | cons hv ha =>
      cases ha with
      | nil =>
        cases hv with
        | number h => exact .ok (.number (L.sqrt h))
        | nil | bool | text | closure | native => exact .error ⟨hl, rfl⟩
      | cons => cases hv <;> exact .error ⟨hl, rfl⟩

end ClosureLang
