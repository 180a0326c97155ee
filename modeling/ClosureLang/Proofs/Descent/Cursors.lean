import ClosureLang.Proofs.Descent.Procedures
import ClosureLang.Proofs.Grammar.Statements

namespace ClosureLang

/-- The place of the first end token; the end of the list counts as one. -/
def endIndex (ts : List Token) : Nat :=
  (ts.takeWhile (·.kind ≠ .eof)).length

theorem endIndex_le_length (ts : List Token) : endIndex ts ≤ ts.length :=
  (List.takeWhile_prefix _).length_le

namespace Cursor

/-- The cursor is not past the first end token. -/
def InText (ts : List Token) (c : Cursor) : Prop :=
  c.current ≤ endIndex ts

variable {ts : List Token} {c : Cursor}

theorem getElem?_of_lt (h : c.current < endIndex ts) :
    ts[c.current]? = some (c.peek ts) ∧ (c.peek ts).kind ≠ .eof := by
  have hlen : c.current < ts.length := Nat.lt_of_lt_of_le h (endIndex_le_length ts)
  have hget : ts[c.current]? = some ts[c.current] := List.getElem?_eq_getElem hlen
  have hpeek : c.peek ts = ts[c.current] := by rw [peek, hget, Option.getD_some]
  have hmem : (ts.takeWhile (·.kind ≠ .eof))[c.current] ∈ ts.takeWhile (·.kind ≠ .eof) :=
    List.getElem_mem h
  have hkind := List.mem_takeWhile_imp hmem
  rw [(List.takeWhile_prefix _).getElem h] at hkind
  rw [hpeek]
  exact ⟨hget, by simpa using hkind⟩

theorem peek_endIndex (h : c.current = endIndex ts) : (c.peek ts).kind = .eof := by
  have hsplit : ts[c.current]? = (ts.dropWhile (·.kind ≠ .eof)).head? := by
    conv_lhs => rw [← List.takeWhile_append_dropWhile (p := (·.kind ≠ .eof)) (l := ts)]
    rw [h, endIndex, List.getElem?_append_right (Nat.le_refl _), Nat.sub_self,
      List.head?_eq_getElem?]
  unfold peek
  rw [hsplit]
  cases hd : (ts.dropWhile (·.kind ≠ .eof)).head? with
  | none => rfl
  | some t =>
    have ht := List.head?_dropWhile_not (·.kind ≠ .eof) ts
    rw [hd] at ht
    simpa using ht

theorem InText.peek_eof_iff (h : c.InText ts) :
    (c.peek ts).kind = .eof ↔ c.current = endIndex ts := by
  constructor
  · intro hk
    by_contra hne
    have hlt : c.current < endIndex ts := by
      unfold InText at h
      omega
    exact (getElem?_of_lt hlt).2 hk
  · exact peek_endIndex

theorem InText.lt_of_peek (h : c.InText ts) (hk : (c.peek ts).kind ≠ .eof) :
    c.current < endIndex ts := by
  have hne := mt h.peek_eof_iff.mpr hk
  unfold InText at h
  omega

theorem next_of_peek (hk : (c.peek ts).kind ≠ .eof) :
    c.next ts = { c with current := c.current + 1 } :=
  if_neg hk

theorem lt_next (hk : (c.peek ts).kind ≠ .eof) : c.current < (c.next ts).current := by
  rw [next_of_peek hk]
  exact Nat.lt_succ_self _

theorem le_next (c : Cursor) : c.current ≤ (c.next ts).current := by
  unfold next
  split <;> simp

theorem InText.next (h : c.InText ts) : (c.next ts).InText ts := by
  by_cases hk : (c.peek ts).kind = .eof
  · rwa [Cursor.next, if_pos hk]
  · rw [next_of_peek hk]
    exact h.lt_of_peek hk

/-- What holds of a cursor whenever it holds of all later ones holds of every cursor. -/
theorem InText.induction {P : (c : Cursor) → c.InText ts → Prop}
    (step : ∀ c hc, (∀ c' hc', c.current < c'.current → P c' hc') → P c hc) (c : Cursor)
    (hc : c.InText ts) : P c hc := by
  induction hm : endIndex ts - c.current using Nat.strong_induction_on generalizing c with
  | _ m ih =>
    refine step c hc fun c' hc' hlt => ih (endIndex ts - c'.current) ?_ c' hc' rfl
    have hend : c'.current ≤ endIndex ts := hc'
    omega

theorem previous_next (hk : (c.peek ts).kind ≠ .eof) : (c.next ts).previous ts = c.peek ts := by
  rw [next_of_peek hk]
  rfl

end Cursor

namespace Builder

/-- The builder with the complaints made up to a cursor. -/
def upTo (b : Builder) (c : Cursor) : Builder :=
  { b with errors := c.errors }

/-- The builder behind a mistake, at a token that is dropped. -/
def recovering (b : Builder) : Builder :=
  { b with position := .discard, opened := b.opened.dropWhile (! ·.isBlock) }

/-- What was read before the end token `t`: each block that is still open lacks its brace. -/
def conclude (b : Builder) (t : Token) : Parsed where
  statements := b.statements.reverse
  errors := (List.replicate (b.opened.countP Open.isBlock)
    (SyntaxError.expectedToken "Expect '\x7d' after block." t.describe t.line) ++ b.errors).reverse

theorem finish_eq_conclude (b : Builder) (t : Token) : b.finish t = (b.feed t).conclude t := rfl

end Builder

namespace Cursor

/-- What `b`, which has read the token under the cursor, makes of the tokens behind it. -/
def after (ts : List Token) (c : Cursor) (b : Builder) : Parsed :=
  if (c.peek ts).kind = .eof then b.conclude (c.peek ts) else b.run (ts.drop (c.current + 1))

/-- What `b` makes of the tokens from the cursor on. -/
def reads (ts : List Token) (c : Cursor) (b : Builder) : Parsed :=
  (b.upTo c).run (ts.drop c.current)

/-- What `b` makes of the tokens from the cursor on if the first of them has to be of a kind and
makes `next` of it. -/
def needs (ts : List Token) (c : Cursor) (b : Builder) (kind : TokenKind) (message : String)
    (next : Builder) : Parsed :=
  c.after ts ((b.upTo c).need kind message (c.peek ts) (next.upTo c))

variable {ts : List Token} {c : Cursor} {b : Builder}

theorem reads_eq_after : c.reads ts b = c.after ts ((b.upTo c).feed (c.peek ts)) := by
  unfold reads after
  -- Behind the last token both read an end token on line 0.
  cases h : ts[c.current]? with
  | none =>
    have hp : c.peek ts = .endOfInput 0 := by rw [peek, h, Option.getD_none]
    have hd : ts.drop c.current = [] := List.drop_eq_nil_of_le (List.getElem?_eq_none_iff.mp h)
    have hk : (Token.endOfInput 0).kind = .eof := rfl
    rw [hp, hd, if_pos hk, Builder.run, Builder.finish_eq_conclude]
  | some t =>
    have hp : c.peek ts = t := by rw [peek, h, Option.getD_some]
    obtain ⟨hlt, ht⟩ := List.getElem?_eq_some_iff.mp h
    have hd : ts.drop c.current = t :: ts.drop (c.current + 1) := by
      rw [List.drop_eq_getElem_cons hlt, ht]
    rw [hp, hd, Builder.run, Builder.finish_eq_conclude]

theorem after_eq_reads (hk : (c.peek ts).kind ≠ .eof) :
    c.after ts (b.upTo c) = (c.next ts).reads ts b := by
  rw [after, if_neg hk, next_of_peek hk]
  rfl

theorem reads_eq_next {b' : Builder} (hk : (c.peek ts).kind ≠ .eof)
    (h : (b.upTo c).feed (c.peek ts) = b'.upTo c) : c.reads ts b = (c.next ts).reads ts b' := by
  rw [reads_eq_after, h]
  exact after_eq_reads hk

theorem after_congr {c' : Cursor} (h : c'.current = c.current) : c'.after ts b = c.after ts b := by
  unfold after peek
  rw [h]

theorem peek_congr {c' : Cursor} (h : c'.current = c.current) : c'.peek ts = c.peek ts := by
  unfold peek
  rw [h]

/-- A builder that fails at a token goes on behind it as the recovering builder, with the complaint
recorded. -/
theorem after_fail (x : SyntaxError) :
    c.after ts ((b.upTo c).fail x (c.peek ts)) = (c.report x).reads ts b.recovering := by
  rw [reads_eq_after]
  rfl

theorem needs_of_eq {kind : TokenKind} {message : String} {next : Builder}
    (hk : (c.peek ts).kind = kind) (hne : kind ≠ .eof) :
    c.needs ts b kind message next = (c.next ts).reads ts next := by
  rw [needs, Builder.need_of_eq hk]
  exact after_eq_reads (hk ▸ hne)

theorem needs_of_ne {kind : TokenKind} {message : String} {next : Builder}
    (hk : (c.peek ts).kind ≠ kind) :
    c.needs ts b kind message next =
      (c.report (.expectedToken message (c.peek ts).describe (c.peek ts).line)).reads ts
        b.recovering := by
  rw [needs, Builder.need, if_neg hk]
  exact after_fail _

end Cursor

namespace Descent

variable {ι κ α β : Type} {ts : List Token}

theorem bind_ok {p : Descent α} {k : α → Descent β} {c c' : Cursor} {a : α}
    (h : p c = some (.ok a, c')) : (p >>= k) c = k a c' := by
  change Option.bind (p c) _ = _
  rw [h]
  rfl

theorem bind_error {p : Descent α} {k : α → Descent β} {c c' : Cursor} {x : SyntaxError}
    (h : p c = some (.error x, c')) : (p >>= k) c = some (.error x, c') := by
  change Option.bind (p c) _ = _
  rw [h]
  rfl

section

variable {c : Cursor} {kind : TokenKind} {message : String}

theorem consume_of_eq (h : (c.peek ts).kind = kind) :
    consume ts kind message c = some (.ok (c.peek ts), c.next ts) := by
  unfold consume
  rw [bind_ok (p := look ts) rfl, if_pos h]
  rfl

theorem consume_of_ne (h : (c.peek ts).kind ≠ kind) :
    consume ts kind message c =
      some (.error (.expectedToken message (c.peek ts).describe (c.peek ts).line), c) := by
  unfold consume
  rw [bind_ok (p := look ts) rfl, if_neg h]
  rfl

end

/-- From the cursor `c` the procedure ends, not behind `c` and not past the first end token, and it
tracks builders. What is left to read is `start i` for the builder with index `i`. After the result
`a` it is what `done i a` makes of where the procedure ended; after a mistake, it is what `base i`
makes of the rest when it recovers. -/
def Tracks (ts : List Token) (p : Descent α) (c : Cursor) (start : ι → Parsed)
    (base : ι → Builder) (done : ι → α → Cursor → Parsed) (post : α → Cursor → Prop) : Prop :=
  ∃ r c', p c = some (r, c') ∧ c.current ≤ c'.current ∧ c'.InText ts ∧
    match r with
    | .ok a => post a c' ∧ ∀ i, start i = done i a c'
    | .error x => ∀ i, start i = (c'.report x).reads ts (base i).recovering

namespace Tracks

variable {p : Descent α} {c : Cursor} {start : ι → Parsed} {base : ι → Builder}
  {done : ι → α → Cursor → Parsed} {post : α → Cursor → Prop}

theorem result {a : α} (hc : c.InText ts) (hp : post a c) (hs : ∀ i, start i = done i a c) :
    Tracks ts (pure a) c start base done post :=
  ⟨.ok a, c, rfl, Nat.le_refl _, hc, hp, hs⟩

theorem mistake {x : SyntaxError} (hc : c.InText ts)
    (hs : ∀ i, start i = (c.report x).reads ts (base i).recovering) :
    Tracks ts (throw x) c start base done post :=
  ⟨.error x, c, rfl, Nat.le_refl _, hc, hs⟩

/-- Procedures one after the other track builders if each does from where the one before it
ended. -/
theorem bind {k : α → Descent β} {done' : ι → β → Cursor → Parsed} {post' : β → Cursor → Prop}
    (h : Tracks ts p c start base done post)
    (hk : ∀ a c', c.current ≤ c'.current → c'.InText ts → post a c' →
      Tracks ts (k a) c' (fun i => done i a c') base done' post') :
    Tracks ts (p >>= k) c start base done' post' := by
  obtain ⟨r, c₁, hr, hle, hc₁, h₁⟩ := h
  cases r with
  | error x => exact ⟨.error x, c₁, bind_error hr, hle, hc₁, h₁⟩
  | ok a =>
    obtain ⟨hp, hs⟩ := h₁
    obtain ⟨r, c₂, hr₂, hle₂, hc₂, h₂⟩ := hk a c₁ hle hc₁ hp
    refine ⟨r, c₂, (bind_ok hr).trans hr₂, hle.trans hle₂, hc₂, ?_⟩
    cases r with
    | ok b => exact ⟨h₂.1, fun i => (hs i).trans (h₂.2 i)⟩
    | error x => exact fun i => (hs i).trans (h₂ i)

theorem step {k : α → Descent β} {a : α} {c' : Cursor} {done' : ι → β → Cursor → Parsed}
    {post' : β → Cursor → Prop} (h : p c = some (.ok a, c')) (hle : c.current ≤ c'.current)
    (hk : Tracks ts (k a) c' start base done' post') :
    Tracks ts (p >>= k) c start base done' post' := by
  obtain ⟨r, c₂, hr₂, hle₂, hc₂, h₂⟩ := hk
  exact ⟨r, c₂, (bind_ok h).trans hr₂, hle.trans hle₂, hc₂, h₂⟩

theorem look {k : Token → Descent α} (h : Tracks ts (k (c.peek ts)) c start base done post) :
    Tracks ts (look ts >>= k) c start base done post :=
  step (a := c.peek ts) rfl (Nat.le_refl _) h

theorem advance {k : PUnit → Descent α}
    (h : Tracks ts (k ⟨⟩) (c.next ts) start base done post) :
    Tracks ts (advance ts >>= k) c start base done post :=
  step (a := ⟨⟩) rfl c.le_next h

theorem reindex {start' : κ → Parsed} {base' : κ → Builder} {done' : κ → α → Cursor → Parsed}
    (h : Tracks ts p c start' base' done' post) (f : ι → κ) (hs : ∀ i, start i = start' (f i))
    (hb : ∀ i, (base' (f i)).recovering = (base i).recovering) :
    Tracks ts p c start base (fun i => done' (f i)) post := by
  obtain ⟨r, c₁, hr, hle, hc₁, h₁⟩ := h
  refine ⟨r, c₁, hr, hle, hc₁, ?_⟩
  cases r with
  | ok a => exact ⟨h₁.1, fun i => (hs i).trans (h₁.2 (f i))⟩
  | error x =>
    intro i
    rw [← hb i]
    exact (hs i).trans (h₁ (f i))

theorem restart {start' : ι → Parsed} (h : Tracks ts p c start' base done post)
    (hs : ∀ i, start i = start' i) : Tracks ts p c start base done post :=
  h.reindex id hs fun _ => rfl

theorem weaken {post' : α → Cursor → Prop} (h : Tracks ts p c start base done post)
    (hp : ∀ a c', c.current ≤ c'.current → post a c' → post' a c') :
    Tracks ts p c start base done post' := by
  obtain ⟨r, c₁, hr, hle, hc₁, h₁⟩ := h
  refine ⟨r, c₁, hr, hle, hc₁, ?_⟩
  cases r with
  | ok a => exact ⟨hp a c₁ hle h₁.1, h₁.2⟩
  | error x => exact h₁

theorem seq {k : α → Descent β} {start' : ι → Parsed} {base' : ι → Builder}
    {done' : ι → β → Cursor → Parsed} {post' : β → Cursor → Prop}
    (h : Tracks ts p c start base done post) (hs : ∀ i, start' i = start i)
    (hb : ∀ i, (base i).recovering = (base' i).recovering)
    (hk : ∀ a c', c.current ≤ c'.current → c'.InText ts → post a c' →
      Tracks ts (k a) c' (fun i => done i a c') base' done' post') :
    Tracks ts (p >>= k) c start' base' done' post' :=
  (h.reindex id hs hb).bind hk

/-- Goes on behind a token that builders need as much as the procedure. -/
theorem consume {kind : TokenKind} {message : String} {k : Token → Descent α}
    (next : ι → Token → Builder) (hc : c.InText ts) (hne : kind ≠ .eof)
    (hs : ∀ i, start i = c.needs ts (base i) kind message (next i (c.peek ts)))
    (hk : ∀ t c', c.current < c'.current → c'.InText ts →
      Tracks ts (k t) c' (fun i => c'.reads ts (next i t)) base done post) :
    Tracks ts (consume ts kind message >>= k) c start base done post := by
  by_cases h : (c.peek ts).kind = kind
  · have hlt := Cursor.lt_next (h ▸ hne : (c.peek ts).kind ≠ .eof)
    refine step (consume_of_eq h) hlt.le ((hk _ _ hlt hc.next).restart fun i => ?_)
    rw [hs i, Cursor.needs_of_eq h hne]
  · refine ⟨_, c, bind_error (consume_of_ne h), Nat.le_refl _, hc, fun i => ?_⟩
    rw [hs i]
    exact Cursor.needs_of_ne h

/-- Complaining about too many items goes with a builder that complains. -/
theorem checkItems {excess : Nat → Nat → SyntaxError} {n : Nat} {k : PUnit → Descent α}
    (hk : ∀ c' : Cursor, c'.current = c.current →
      (∀ b : Builder, (if n = Builder.maxItems then
          (b.upTo c).report (excess Builder.maxItems (c.peek ts).line) else b.upTo c) =
        b.upTo c') →
      Tracks ts (k ⟨⟩) c' start base done post) :
    Tracks ts (checkItems ts excess n >>= k) c start base done post := by
  by_cases hn : n = Builder.maxItems
  · have hrun : Descent.checkItems ts excess n c =
        some (.ok ⟨⟩, c.report (excess Builder.maxItems (c.peek ts).line)) := by
      unfold Descent.checkItems
      rw [bind_ok (p := Descent.look ts) rfl, if_pos hn]
      rfl
    exact .step hrun (Nat.le_refl _) (hk _ rfl fun b => if_pos hn)
  · have hrun : Descent.checkItems ts excess n c = some (.ok ⟨⟩, c) := by
      unfold Descent.checkItems
      rw [bind_ok (p := Descent.look ts) rfl, if_neg hn]
      rfl
    exact .step hrun (Nat.le_refl _) (hk _ rfl fun b => if_neg hn)

end Tracks

end Descent

end ClosureLang
