import ClosureLang.Value.Operators
import Mathlib

namespace ClosureLang

/-- What an operator before a value yields. -/
inductive UnaryOp.Yields : UnaryOp → Value → Nat → Except Fault Value → Prop where
  | opposite {v : Value} {line : Nat} : Yields .not v line (.ok (.bool (!v.truthy)))
  | negative {x : Float} {line : Nat} : Yields .negate (.number x) line (.ok (.number (-x)))
  | notNumber {v : Value} {line : Nat} (h : v.number? = none) :
      Yields .negate v line (.error (.operandMustBeNumber "-" line))

/-- Whether an operator takes nothing but two numbers. -/
def BinaryOp.numeric : BinaryOp → Bool
  | .add | .equal | .notEqual => false
  | _ => true

/-- What an operator between two values yields. -/
inductive BinaryOp.Yields : BinaryOp → Value → Value → Nat → Except Fault Value → Prop where
  | sum {x y : Float} {line : Nat} :
      Yields .add (.number x) (.number y) line (.ok (.number (x + y)))
  | textLeft {s : String} {v : Value} {line : Nat} :
      Yields .add (.text s) v line (.ok (.text (s ++ v.display)))
  | textRight {s : String} {v : Value} {line : Nat} :
      Yields .add v (.text s) line (.ok (.text (v.display ++ s)))
  | noSum {v w : Value} {line : Nat} (hn : v.number? = none ∨ w.number? = none)
      (hv : ∀ s, v ≠ .text s) (hw : ∀ s, w ≠ .text s) :
      Yields .add v w line (.error (.invalidAddOperands line))
  | difference {x y : Float} {line : Nat} :
      Yields .sub (.number x) (.number y) line (.ok (.number (x - y)))
  | product {x y : Float} {line : Nat} :
      Yields .mul (.number x) (.number y) line (.ok (.number (x * y)))
  | quotient {x y : Float} {line : Nat} (h : (y == 0) = false) :
      Yields .div (.number x) (.number y) line (.ok (.number (x / y)))
  | byZero {x y : Float} {line : Nat} (h : (y == 0) = true) :
      Yields .div (.number x) (.number y) line (.error (.divisionByZero line))
  | less {x y : Float} {line : Nat} :
      Yields .less (.number x) (.number y) line (.ok (.bool (x < y)))
  | greater {x y : Float} {line : Nat} :
      Yields .greater (.number x) (.number y) line (.ok (.bool (x > y)))
  | lessEqual {x y : Float} {line : Nat} :
      Yields .lessEqual (.number x) (.number y) line (.ok (.bool (x ≤ y)))
  | greaterEqual {x y : Float} {line : Nat} :
      Yields .greaterEqual (.number x) (.number y) line (.ok (.bool (x ≥ y)))
  | notNumbers {op : BinaryOp} {v w : Value} {line : Nat} (ho : op.numeric = true)
      (hn : v.number? = none ∨ w.number? = none) :
      Yields op v w line (.error (.operandsMustBeNumbers op.symbol line))
  | same {v w : Value} {line : Nat} : Yields .equal v w line (.ok (.bool (v.same w)))
  | different {v w : Value} {line : Nat} : Yields .notEqual v w line (.ok (.bool (!v.same w)))

/-- What a provided function yields for its arguments. -/
inductive Native.Yields : Native → List Value → Nat → Except Fault Value → Prop where
  | sum {x y : Float} {line : Nat} :
      Yields .add [.number x, .number y] line (.ok (.number (x + y)))
  | noSum {args : List Value} {line : Nat} (h : ∀ x y, args ≠ [.number x, .number y]) :
      Yields .add args line (.error (.typeError "Arguments to 'add' must be numbers." line))
  | root {x : Float} {line : Nat} : Yields .sqrt [.number x] line (.ok (.number x.sqrt))
  | noRoot {args : List Value} {line : Nat} (h : ∀ x, args ≠ [.number x]) :
      Yields .sqrt args line (.error (.typeError "Argument to 'sqrt' must be a number." line))

theorem UnaryOp.apply_of_yields {op : UnaryOp} {v : Value} {line : Nat} {r : Except Fault Value}
    (h : op.Yields v line r) : op.apply v line = r := by
  cases h with
  | opposite => rfl
  | negative => rfl
  | notNumber h =>
    cases v with
    | number x => simp [Value.number?] at h
    | nil | bool | text | closure | native => rfl

theorem UnaryOp.yields_apply (op : UnaryOp) (v : Value) (line : Nat) :
    op.Yields v line (op.apply v line) := by
  cases op with
  | not => exact .opposite
  | negate =>
    cases v with
    | number x => exact .negative
    | nil | bool | text | closure | native => exact .notNumber rfl

/-- The rules and the computation of operators with one operand agree. -/
theorem UnaryOp.yields_iff {op : UnaryOp} {v : Value} {line : Nat} {r : Except Fault Value} :
    op.Yields v line r ↔ op.apply v line = r :=
  ⟨apply_of_yields, fun h => h ▸ op.yields_apply v line⟩

theorem numberOperands_of_none {op : BinaryOp} {v w : Value} {line : Nat}
    (h : v.number? = none ∨ w.number? = none) :
    numberOperands op v w line = .error (.operandsMustBeNumbers op.symbol line) := by
  unfold numberOperands
  split
  next => simp [Value.number?] at h
  next => rfl

/-- Addition refuses operands that are not both numbers and of which none is a text. -/
theorem addValues_of_noSum {v w : Value} {line : Nat} (hn : v.number? = none ∨ w.number? = none)
    (hv : ∀ s, v ≠ .text s) (hw : ∀ s, w ≠ .text s) :
    addValues v w line = .error (.invalidAddOperands line) := by
  unfold addValues
  split
  next => simp [Value.number?] at hn
  next s => exact absurd rfl (hv s)
  next s _ => exact absurd rfl (hw s)
  next => rfl

theorem BinaryOp.apply_of_yields {op : BinaryOp} {v w : Value} {line : Nat}
    {r : Except Fault Value} (h : op.Yields v w line r) : op.apply v w line = r := by
  cases h with
  | sum => rfl
  | textLeft => cases w <;> rfl
  | textRight => cases v <;> rfl
  | noSum hn hv hw => exact addValues_of_noSum hn hv hw
  | difference => rfl
  | product => rfl
  | quotient h => simp [BinaryOp.apply, arithmetic, numberOperands, bind, Except.bind, h]
  | byZero h => simp [BinaryOp.apply, arithmetic, numberOperands, bind, Except.bind, h]
  | less | greater | lessEqual | greaterEqual => rfl
  | notNumbers ho hn =>
    cases op <;> simp [BinaryOp.numeric] at ho <;>
      simp [BinaryOp.apply, arithmetic, comparison, numberOperands_of_none hn, bind, Except.bind]
  | same => rfl
  | different => rfl

theorem yields_addValues (v w : Value) (line : Nat) :
    BinaryOp.Yields .add v w line (addValues v w line) := by
  cases v with
  | text s => exact .textLeft
  | number x =>
    cases w with
    | number y => exact .sum
    | text s => exact .textRight
    | nil | bool | closure | native => exact .noSum (.inr rfl) nofun nofun
  | nil | bool | closure | native =>
    cases w with
    | text s => exact .textRight
    | number | nil | bool | closure | native => exact .noSum (.inl rfl) nofun nofun

/-- Two values are two numbers, or an operator on numbers refuses them. -/
theorem Value.numbers_or_none (v w : Value) :
    (∃ x y, v = .number x ∧ w = .number y) ∨ (v.number? = none ∨ w.number? = none) := by
  cases v with
  | number x =>
    cases w with
    | number y => exact .inl ⟨x, y, rfl, rfl⟩
    | nil | bool | text | closure | native => exact .inr (.inr rfl)
  | nil | bool | text | closure | native => exact .inr (.inl rfl)

theorem BinaryOp.yields_apply (op : BinaryOp) (v w : Value) (line : Nat) :
    op.Yields v w line (op.apply v w line) := by
  by_cases ho : op.numeric = true
  · rcases Value.numbers_or_none v w with ⟨x, y, rfl, rfl⟩ | hn
    · cases op with
      | add | equal | notEqual => simp [BinaryOp.numeric] at ho
      | sub => exact .difference
      | mul => exact .product
      | less => exact .less
      | greater => exact .greater
      | lessEqual => exact .lessEqual
      | greaterEqual => exact .greaterEqual
      | div =>
        cases hy : y == 0 with
        | true =>
          have h : Yields .div (.number x) (.number y) line _ := .byZero hy
          exact apply_of_yields h ▸ h
        | false =>
          have h : Yields .div (.number x) (.number y) line _ := .quotient hy
          exact apply_of_yields h ▸ h
    · have h : op.Yields v w line _ := .notNumbers ho hn
      exact apply_of_yields h ▸ h
  · cases op with
    | add => exact yields_addValues v w line
    | equal => exact .same
    | notEqual => exact .different
    | sub | mul | div | less | greater | lessEqual | greaterEqual => exact absurd rfl ho

/-- The rules and the computation of operators with two operands agree. -/
theorem BinaryOp.yields_iff {op : BinaryOp} {v w : Value} {line : Nat} {r : Except Fault Value} :
    op.Yields v w line r ↔ op.apply v w line = r :=
  ⟨apply_of_yields, fun h => h ▸ op.yields_apply v w line⟩

theorem Native.apply_of_yields {f : Native} {args : List Value} {line : Nat}
    {r : Except Fault Value} (h : f.Yields args line r) : f.apply args line = r := by
  cases h with
  | sum => rfl
  | root => rfl
  | noSum h =>
    unfold Native.apply
    split <;> simp_all
  | noRoot h =>
    unfold Native.apply
    split <;> simp_all

theorem Native.yields_apply (f : Native) (args : List Value) (line : Nat) :
    f.Yields args line (f.apply args line) := by
  unfold Native.apply
  split
  next => exact .sum
  next h => exact .noSum h
  next => exact .root
  next h => exact .noRoot h

/-- The rules and the computation of provided functions agree. -/
theorem Native.yields_iff {f : Native} {args : List Value} {line : Nat} {r : Except Fault Value} :
    f.Yields args line r ↔ f.apply args line = r :=
  ⟨apply_of_yields, fun h => h ▸ f.yields_apply args line⟩

/-- No function comes out of an operator, and none out of a provided function or a literal. -/
theorem UnaryOp.apply_ne_closure {op : UnaryOp} {v u : Value} {line : Nat}
    (h : op.apply v line = .ok u) (f : Closure) : u ≠ .closure f := by
  cases UnaryOp.yields_iff.mpr h <;> nofun

theorem BinaryOp.apply_ne_closure {op : BinaryOp} {v w u : Value} {line : Nat}
    (h : op.apply v w line = .ok u) (f : Closure) : u ≠ .closure f := by
  cases BinaryOp.yields_iff.mpr h <;> nofun

theorem Native.apply_ne_closure {g : Native} {args : List Value} {u : Value} {line : Nat}
    (h : g.apply args line = .ok u) (f : Closure) : u ≠ .closure f := by
  cases Native.yields_iff.mpr h <;> nofun

theorem Value.ofLiteral_ne_closure (l : Literal) (f : Closure) :
    Value.ofLiteral l ≠ .closure f := by
  cases l <;> nofun

end ClosureLang
