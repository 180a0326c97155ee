import ClosureLang.Token
import Mathlib

namespace ClosureLang.Grammar

/-- The right-hand side of a production. -/
inductive Rule (ι : Type) where
  | token (kind : TokenKind)
  | category (c : ι)
  | sequence (first second : Rule ι)
  | either (one other : Rule ι)
  | maybe (r : Rule ι)
  | many (r : Rule ι)

variable {ι : Type}

instance : Append (Rule ι) := ⟨.sequence⟩

instance : OrOp (Rule ι) := ⟨.either⟩

/-- The words that a right-hand side derives with the productions. -/
inductive Derives (productions : ι → Rule ι) : Rule ι → List TokenKind → Prop where
  | token (kind : TokenKind) : Derives productions (.token kind) [kind]
  | category {c : ι} {w : List TokenKind} (h : Derives productions (productions c) w) :
      Derives productions (.category c) w
  | sequence {r s : Rule ι} {u v : List TokenKind} (hr : Derives productions r u)
      (hs : Derives productions s v) : Derives productions (.sequence r s) (u ++ v)
  | one {r s : Rule ι} {w : List TokenKind} (h : Derives productions r w) :
      Derives productions (.either r s) w
  | other {r s : Rule ι} {w : List TokenKind} (h : Derives productions s w) :
      Derives productions (.either r s) w
  | absent {r : Rule ι} : Derives productions (.maybe r) []
  | present {r : Rule ι} {w : List TokenKind} (h : Derives productions r w) :
      Derives productions (.maybe r) w
  | done {r : Rule ι} : Derives productions (.many r) []
  | more {r : Rule ι} {u v : List TokenKind} (h : Derives productions r u)
      (hr : Derives productions (.many r) v) : Derives productions (.many r) (u ++ v)

/-- The words of a category. -/
def words (productions : ι → Rule ι) (c : ι) : Language TokenKind :=
  {w | Derives productions (.category c) w}

inductive Category where
  | program | declaration | varDecl | funcDecl | parameters
  | statement | forStmt | ifStmt | whileStmt | outputStmt | returnStmt | block | exprStmt
  | expression | assignment | logicOr | logicAnd | equality | comparison | term | factor
  | unary | call | arguments | primary

section

open Rule

/-- The productions of the grammar. Any operand may stand in front of `=`, and lists may have any
length. -/
def productions : Category → Rule Category
  | .program => many (category .declaration) ++ token .eof
  | .declaration => category .varDecl ||| category .funcDecl ||| category .statement
  | .varDecl =>
    token .create ++ token .identifier ++ maybe (token .equal ++ category .expression) ++
      token .semicolon
  | .funcDecl =>
    token .func ++ token .identifier ++ token .leftParen ++ maybe (category .parameters) ++
      token .rightParen ++ category .block
  | .parameters => token .identifier ++ many (token .comma ++ token .identifier)
  | .statement =>
    category .forStmt ||| category .ifStmt ||| category .whileStmt ||| category .outputStmt |||
      category .returnStmt ||| category .block ||| category .exprStmt
  | .forStmt =>
    token .for ++ token .leftParen ++
      (category .varDecl ||| category .exprStmt ||| token .semicolon) ++
      maybe (category .expression) ++ token .semicolon ++ maybe (category .expression) ++
      token .rightParen ++ category .statement
  | .ifStmt =>
    token .if ++ token .leftParen ++ category .expression ++ token .rightParen ++
      category .statement ++ maybe (token .else ++ category .statement)
  | .whileStmt =>
    token .while ++ token .leftParen ++ category .expression ++ token .rightParen ++
      category .statement
  | .outputStmt => token .output ++ category .expression ++ token .semicolon
  | .returnStmt => token .return ++ maybe (category .expression) ++ token .semicolon
  | .block => token .leftBrace ++ many (category .declaration) ++ token .rightBrace
  | .exprStmt => category .expression ++ token .semicolon
  | .expression => category .assignment
  | .assignment => category .logicOr ++ maybe (token .equal ++ category .assignment)
  | .logicOr => category .logicAnd ++ many (token .or ++ category .logicAnd)
  | .logicAnd => category .equality ++ many (token .and ++ category .equality)
  | .equality =>
    category .comparison ++ many ((token .bangEqual ||| token .equalEqual) ++ category .comparison)
  | .comparison =>
    category .term ++
      many ((token .greater ||| token .greaterEqual ||| token .less ||| token .lessEqual) ++
        category .term)
  | .term => category .factor ++ many ((token .plus ||| token .minus) ++ category .factor)
  | .factor => category .unary ++ many ((token .star ||| token .slash) ++ category .unary)
  | .unary => (token .bang ||| token .minus) ++ category .unary ||| category .call
  | .call =>
    category .primary ++ many (token .leftParen ++ maybe (category .arguments) ++
      token .rightParen)
  | .arguments => category .expression ++ many (token .comma ++ category .expression)
  | .primary =>
    token .number ||| token .string ||| token .true ||| token .false ||| token .nil |||
      token .identifier ||| token .leftParen ++ category .expression ++ token .rightParen

end

/-- The word of one token. -/
def letter (kind : TokenKind) : Language TokenKind := {[kind]}

/-- The words of a right-hand side if `f` gives those of the categories. -/
def Rule.under (f : ι → Language TokenKind) : Rule ι → Language TokenKind
  | .token kind => letter kind
  | .category c => f c
  | .sequence r s => r.under f * s.under f
  | .either r s => r.under f + s.under f
  | .maybe r => 1 + r.under f
  | .many r => KStar.kstar (r.under f)

section

variable {f : ι → Language TokenKind} {r s : Rule ι} {kind : TokenKind} {c : ι}

@[simp] theorem Rule.under_token : (Rule.token kind).under f = letter kind := rfl

@[simp] theorem Rule.under_category : (Rule.category c).under f = f c := rfl

@[simp] theorem Rule.under_append : (r ++ s).under f = r.under f * s.under f := rfl

@[simp] theorem Rule.under_or : (r ||| s).under f = r.under f + s.under f := rfl

@[simp] theorem Rule.under_maybe : (Rule.maybe r).under f = 1 + r.under f := rfl

@[simp] theorem Rule.under_many : (Rule.many r).under f = KStar.kstar (r.under f) := rfl

end

/-- Languages that are closed under the productions hold every word that is derived. -/
theorem Derives.mem_under {productions : ι → Rule ι} {f : ι → Language TokenKind}
    (hf : ∀ c, (productions c).under f ≤ f c) {r : Rule ι} {w : List TokenKind}
    (h : Derives productions r w) : w ∈ r.under f := by
  induction h with
  | token kind => rfl
  | category _ ih => exact hf _ ih
  | sequence _ _ ihr ihs => exact Language.append_mem_mul ihr ihs
  | one _ ih => exact .inl ih
  | other _ ih => exact .inr ih
  | absent => exact .inl rfl
  | present _ ih => exact .inr ih
  | done => exact Language.nil_mem_kstar _
  | @more r _ _ _ _ ih ihr =>
    have hle : r.under f * KStar.kstar (r.under f) ≤ KStar.kstar (r.under f) := mul_kstar_le_kstar
    exact hle (Language.append_mem_mul ih ihr)

/-- Languages that are closed under the productions contain the words of the categories. -/
theorem words_le {productions : ι → Rule ι} {f : ι → Language TokenKind}
    (hf : ∀ c, (productions c).under f ≤ f c) (c : ι) : words productions c ≤ f c :=
  fun _ h => h.mem_under hf

theorem derives_of_mem_under {productions : ι → Rule ι} {r : Rule ι} {w : List TokenKind}
    (h : w ∈ r.under (words productions)) : Derives productions r w := by
  induction r generalizing w with
  | token kind =>
    cases h
    exact .token kind
  | category c => exact h
  | sequence r s ihr ihs =>
    obtain ⟨u, hu, v, hv, rfl⟩ := Language.mem_mul.mp h
    exact .sequence (ihr hu) (ihs hv)
  | either r s ihr ihs =>
    obtain h | h := h
    · exact .one (ihr h)
    · exact .other (ihs h)
  | maybe r ih =>
    obtain h | h := h
    · cases h
      exact .absent
    · exact .present (ih h)
  | many r ih =>
    obtain ⟨us, rfl, hus⟩ := Language.mem_kstar.mp h
    induction us with
    | nil => exact .done
    | cons u us ihus =>
      obtain ⟨hu, hus⟩ := List.forall_mem_cons.mp hus
      exact .more (ih hu) (ihus hus (Language.join_mem_kstar hus))

/-- The words of a category are those of its right-hand side. -/
theorem words_eq (productions : ι → Rule ι) (c : ι) :
    words productions c = (productions c).under (words productions) := by
  refine le_antisymm (fun w h => ?_) fun w h => .category (derives_of_mem_under h)
  cases h with
  | category h =>
    exact h.mem_under fun c w h => .category (derives_of_mem_under h)

theorem letter_le_iff {kind : TokenKind} {L : Language TokenKind} :
    letter kind ≤ L ↔ [kind] ∈ L := by
  constructor
  · exact fun h => h rfl
  · rintro h _ rfl
    exact h

@[simp] theorem singleton_mem_letter {j k : TokenKind} : [k] ∈ letter j ↔ k = j := by
  have hmem : [k] ∈ letter j ↔ [k] = [j] := Iff.rfl
  rw [hmem, List.singleton_inj]

section Quotients

variable {L M : Language TokenKind} {j k : TokenKind}

@[simp] theorem leftQuotient_add :
    (L + M).leftQuotient [k] = L.leftQuotient [k] + M.leftQuotient [k] := rfl

@[simp] theorem leftQuotient_one : (1 : Language TokenKind).leftQuotient [k] = 0 := by
  ext w
  simp

theorem leftQuotient_mul_of_notMem (h : [] ∉ L) :
    (L * M).leftQuotient [k] = L.leftQuotient [k] * M := by
  ext w
  simp only [Language.mem_leftQuotient, Language.mem_mul]
  constructor
  · rintro ⟨u, hu, v, hv, huv⟩
    cases u with
    | nil => exact absurd hu h
    | cons i u =>
      obtain ⟨rfl, rfl⟩ := List.cons.inj huv
      exact ⟨u, hu, v, hv, rfl⟩
  · rintro ⟨u, hu, v, hv, rfl⟩
    exact ⟨k :: u, hu, v, hv, rfl⟩

theorem leftQuotient_mul_of_mem (h : [] ∈ L) :
    (L * M).leftQuotient [k] = L.leftQuotient [k] * M + M.leftQuotient [k] := by
  ext w
  simp only [Language.mem_leftQuotient, Language.mem_mul, Language.mem_add]
  constructor
  · rintro ⟨u, hu, v, hv, huv⟩
    cases u with
    | nil =>
      rw [← huv]
      exact .inr hv
    | cons i u =>
      obtain ⟨rfl, rfl⟩ := List.cons.inj huv
      exact .inl ⟨u, hu, v, hv, rfl⟩
  · rintro (⟨u, hu, v, hv, rfl⟩ | hw)
    · exact ⟨k :: u, hu, v, hv, rfl⟩
    · exact ⟨[], h, k :: w, hw, rfl⟩

@[simp] theorem leftQuotient_letter :
    (letter j).leftQuotient [k] = if j = k then 1 else 0 := by
  ext w
  have hmem : w ∈ (letter j).leftQuotient [k] ↔ k :: w = [j] := Iff.rfl
  rw [hmem, List.cons.injEq]
  split <;> simp_all [eq_comm]

theorem nil_notMem_letter : [] ∉ letter k := by
  intro h
  cases h

@[simp] theorem leftQuotient_letter_mul :
    (letter j * L).leftQuotient [k] = if j = k then L else 0 := by
  rw [leftQuotient_mul_of_notMem nil_notMem_letter, leftQuotient_letter]
  split <;> simp

@[simp] theorem leftQuotient_one_add_mul :
    ((1 + L) * M).leftQuotient [k] = M.leftQuotient [k] + (L * M).leftQuotient [k] := by
  rw [add_mul, one_mul, leftQuotient_add]

end Quotients

end ClosureLang.Grammar
