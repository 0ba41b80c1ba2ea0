import MetricBoard.Proofs.Expression.Fragments

/-!
# One turn of a reader

The readers ask one another: for an operand, for the rest of a chain, for the arguments of a call.
Here the body of each is a function of the answers that it gets (`Reader.body`). These need not be
those of the readers, and nothing says that they take a token.

With the readers' own answers the bodies are the readers (`body_read`). For this they need only some
of the answers: those behind the first of the tokens given, and those of smaller height on the same
tokens (`body_eq_read`). What follows for a whole reading is in `Proofs/Expression/Termination`.
-/

namespace MetricBoard.Expression

/-! ## Readers and their answers -/

/-- The readers that ask one another, each with what was read before its tokens. -/
inductive Reader : Type → Type
  | chain (level : Level) : Reader Expr
  | chainTail (level : Level) (left : Expr) : Reader Expr
  | operand (level : Level) : Reader Expr
  | negation : Reader Expr
  | predicate : Reader Expr
  | predicateTail (left : Expr) : Reader Expr
  | rangeTail (negated : Bool) (left : Expr) : Reader Expr
  | signed : Reader Expr
  | primary : Reader Expr
  | arguments : Reader (List Expr)
  | expressions : Reader (List Expr)
  | moreExpressions : Reader (List Expr)
  | nameParts (parts : List String) (last : Place) : Reader DottedName
  | dropHints : Reader Unit

/-- What was read with the tokens after it, without the proof that these are fewer. -/
def reply {α : Type} {n : Nat} (r : Except Fault (Parsed α n)) : Except Fault (α × List Lexeme) :=
  r.map fun p => (p.value, p.rest)

/-- What a reader replies. -/
def Reader.read {α : Type} (r : Reader α) (ts : List Lexeme) : Except Fault (α × List Lexeme) :=
  match r with
  | .chain level => reply (Expression.chain level ts)
  | .chainTail level left => reply (Expression.chainTail level left ts)
  | .operand level => reply (Expression.operand level ts)
  | .negation => reply (Expression.negation ts)
  | .predicate => reply (Expression.predicate ts)
  | .predicateTail left => reply (Expression.predicateTail left ts)
  | .rangeTail negated left => reply (Expression.rangeTail negated left ts)
  | .signed => reply (Expression.signed ts)
  | .primary => reply (Expression.primary ts)
  | .arguments => reply (Expression.arguments ts)
  | .expressions => reply (Expression.expressions ts)
  | .moreExpressions => reply (Expression.moreExpressions ts)
  | .nameParts parts last => reply (Expression.nameParts parts last ts)
  | .dropHints => (Expression.dropHints ts).map fun us => ((), us)

/-- A reply for each reader and all tokens: those of the readers, or any others. -/
abbrev Answers := ∀ ⦃α : Type⦄, Reader α → List Lexeme → Except Fault (α × List Lexeme)

/-! ## Bodies

What each reader does itself, where it asks the others. -/

namespace Body

variable (ask : Answers)

def chain (level : Level) (ts : List Lexeme) : Except Fault (Expr × List Lexeme) := do
  let (first, us) ← ask (.operand level) ts
  ask (.chainTail level first) us

def chainTail (level : Level) (left : Expr) (ts : List Lexeme) :
    Except Fault (Expr × List Lexeme) :=
  match ts with
  | [] => .ok (left, [])
  | t :: us =>
    match level.operator? t.token with
    | some op => do
      let (right, vs) ← ask (.operand level) us
      ask (.chainTail level (.binary op left right)) vs
    | none => .ok (left, t :: us)

def operand (level : Level) (ts : List Lexeme) : Except Fault (Expr × List Lexeme) :=
  match level with
  | .disjunction => ask (.chain .conjunction) ts
  | .conjunction => ask .negation ts
  | .sum => ask (.chain .product) ts
  | .product => ask .signed ts

def negation (ts : List Lexeme) : Except Fault (Expr × List Lexeme) :=
  match ts with
  | [] => ask .predicate []
  | t :: us =>
    if t.token.keyword? = some .not then do
      let (e, vs) ← ask .negation us
      return (.unary .not e, vs)
    else ask .predicate (t :: us)

def predicate (ts : List Lexeme) : Except Fault (Expr × List Lexeme) := do
  let (left, us) ← ask (.chain .sum) ts
  ask (.predicateTail left) us

def predicateTail (left : Expr) (ts : List Lexeme) : Except Fault (Expr × List Lexeme) :=
  match ts with
  | [] => .ok (left, [])
  | t :: us =>
    match comparison? t.token, t.token.keyword? with
    | some op, _ => do
      let (right, vs) ← ask (.chain .sum) us
      return (.binary op left right, vs)
    | none, some .is => do
      let (negated, ⟨vs, _⟩) := eatKeyword .not us
      let ⟨ws, _⟩ ← expectKeyword .null .nullExpected vs
      return (.isNull negated left, ws)
    | none, some .not =>
      if startsRange us then ask (.rangeTail true left) us else .ok (left, t :: us)
    | none, _ => ask (.rangeTail false left) (t :: us)

def rangeTail (negated : Bool) (left : Expr) (ts : List Lexeme) :
    Except Fault (Expr × List Lexeme) :=
  match ts with
  | [] => .ok (left, [])
  | t :: us =>
    match t.token.keyword? with
    | some .between => do
      let (low, vs) ← ask (.chain .sum) us
      let ⟨ws, _⟩ ← expectKeyword .and .andExpected vs
      let (high, xs) ← ask (.chain .sum) ws
      return (.between negated left low high, xs)
    | some .in_ => do
      let ⟨vs, _⟩ ← expect .lparen .openAfterIn us
      if headKeyword? vs = some .select then .error (faultAt vs .subquery)
      let (items, ws) ← ask .expressions vs
      let ⟨xs, _⟩ ← expect .rparen .closeAfterIn ws
      return (.inList negated left items, xs)
    | some .like => do
      let (pattern, vs) ← ask (.chain .sum) us
      return (.like negated left pattern, vs)
    | _ => .ok (left, t :: us)

def signed (ts : List Lexeme) : Except Fault (Expr × List Lexeme) :=
  match ts with
  | ⟨.minus, _⟩ :: us => do
    let (e, vs) ← ask .signed us
    return (.unary .neg e, vs)
  | ⟨.plus, _⟩ :: us => ask .signed us
  | ts => ask .primary ts

/-- A column that begins with a part. -/
def column (part : String) (t : Lexeme) (us : List Lexeme) :
    Except Fault (Expr × List Lexeme) := do
  let (name, vs) ← ask (.nameParts [part] (.byte t.offset)) us
  return (← columnOf name, vs)

/-- A word without a parenthesis behind it: a column, unless it is a keyword. -/
def bareWord (keyword : Option Keyword) (w : String) (t : Lexeme) (us : List Lexeme) :
    Except Fault (Expr × List Lexeme) :=
  match keyword with
  | some .case => .error ⟨.byte t.offset, .caseExpression⟩
  | some _ => .error ⟨.byte t.offset, .strayKeyword⟩
  | none => column ask w t us

/-- A call, or a word without a parenthesis behind it. -/
def word (keyword : Option Keyword) (w : String) (t : Lexeme) (us : List Lexeme) :
    Except Fault (Expr × List Lexeme) :=
  match us with
  | ⟨.lparen, _⟩ :: vs => do
    let (args, ws) ← ask .arguments vs
    match callTree w args with
    | .ok e => return (e, ws)
    | .error reason => .error ⟨.byte t.offset, reason⟩
  | us => bareWord ask keyword w t us

theorem word_of_ne {us : List Lexeme} (h : ∀ o vs, us ≠ ⟨.lparen, o⟩ :: vs)
    (keyword : Option Keyword) (w : String) (t : Lexeme) :
    word ask keyword w t us = bareWord ask keyword w t us := by
  unfold word
  split
  · exact absurd rfl (h _ _)
  · rfl

def primary (ts : List Lexeme) : Except Fault (Expr × List Lexeme) :=
  match ts with
  | [] => .error (faultAt [] .endOfExpression)
  | t :: us =>
    match t.token with
    | .number n => .ok (.number n, us)
    | .text s => .ok (.text s, us)
    | .date d => .ok (.date d, us)
    | .lparen =>
      if headKeyword? us = some .select then .error (faultAt us .subquery)
      else do
        let (e, vs) ← ask (.chain .disjunction) us
        let ⟨ws, _⟩ ← expect .rparen .closeExpected vs
        return (.nested e, ws)
    | .quoted name => column ask name t us
    | .word w =>
      match Keyword.ofWord? w with
      | some .null => .ok (.null, us)
      | some .currentTimestamp => .ok (.call .now [], us)
      | keyword => word ask keyword w t us
    | _ => .error ⟨.byte t.offset, .strayToken⟩

def arguments (ts : List Lexeme) : Except Fault (List Expr × List Lexeme) :=
  match ts with
  | ⟨.rparen, _⟩ :: us => .ok ([], us)
  | ts => do
    let (args, us) ← ask .expressions ts
    let ⟨vs, _⟩ ← expect .rparen .closeAfterArguments us
    return (args, vs)

def expressions (ts : List Lexeme) : Except Fault (List Expr × List Lexeme) := do
  let (e, us) ← ask (.chain .disjunction) ts
  let (es, vs) ← ask .moreExpressions us
  return (e :: es, vs)

def moreExpressions (ts : List Lexeme) : Except Fault (List Expr × List Lexeme) :=
  match ts with
  | ⟨.comma, _⟩ :: us => ask .expressions us
  | ts => .ok ([], ts)

def nameParts (parts : List String) (last : Place) (ts : List Lexeme) :
    Except Fault (DottedName × List Lexeme) :=
  match ts with
  | ⟨.dot, _⟩ :: us =>
    match us with
    | t :: vs =>
      match t.token.name? with
      | some name => ask (.nameParts (parts ++ [name]) (.byte t.offset)) vs
      | none => .error (faultAt us .nameAfterDot)
    | [] => .error (faultAt us .nameAfterDot)
  | ts => .ok (⟨parts, last⟩, ts)

def dropHints (ts : List Lexeme) : Except Fault (Unit × List Lexeme) :=
  match ts with
  | [] => .error (faultAt [] .otherHint)
  | t :: us =>
    if t.token.isLockHint then
      match us with
      | ⟨.comma, _⟩ :: vs => ask .dropHints vs
      | us => (expect .rparen .closeAfterHints us).map fun vs => ((), vs.1)
    else .error (faultAt (t :: us) .otherHint)

end Body

/-- What a reader replies if the readers that it asks answer so. -/
def Reader.body {α : Type} (r : Reader α) (ask : Answers) (ts : List Lexeme) :
    Except Fault (α × List Lexeme) :=
  match r with
  | .chain level => Body.chain ask level ts
  | .chainTail level left => Body.chainTail ask level left ts
  | .operand level => Body.operand ask level ts
  | .negation => Body.negation ask ts
  | .predicate => Body.predicate ask ts
  | .predicateTail left => Body.predicateTail ask left ts
  | .rangeTail negated left => Body.rangeTail ask negated left ts
  | .signed => Body.signed ask ts
  | .primary => Body.primary ask ts
  | .arguments => Body.arguments ask ts
  | .expressions => Body.expressions ask ts
  | .moreExpressions => Body.moreExpressions ask ts
  | .nameParts parts last => Body.nameParts ask parts last ts
  | .dropHints => Body.dropHints ask ts

/-! ## Heights -/

/-- How many readers may follow one another before a token is taken. The loops, which go round only
with a token, have height 0. -/
def Reader.height {α : Type} : Reader α → Nat
  | .chain level => level.height + 1
  | .operand level => level.height
  | .negation => 8
  | .predicate => 7
  | .predicateTail _ | .signed => 1
  | .arguments => 14
  | .expressions => 13
  | _ => 0

/-- What is left of some tokens once at least one of them was taken. -/
def Behind (us ts : List Lexeme) : Prop := us <:+ ts ∧ us.length < ts.length

theorem behind_cons (t : Lexeme) (us : List Lexeme) : Behind us (t :: us) :=
  ⟨List.suffix_cons t us, Nat.lt_succ_self _⟩

variable {α β : Type} {n m : Nat} {ts us vs : List Lexeme}

theorem Behind.trans_suffix (h : Behind vs us) (hs : us <:+ ts) : Behind vs ts :=
  ⟨h.1.trans hs, Nat.lt_of_lt_of_le h.2 hs.length_le⟩

theorem Behind.suffix_trans (hs : vs <:+ us) (h : Behind us ts) : Behind vs ts :=
  ⟨hs.trans h.1, Nat.lt_of_le_of_lt hs.length_le h.2⟩

theorem StaysIn.suffix {r : Except Fault (Parsed α n)} {p : Parsed α n} (h : StaysIn ts r)
    (hr : r = .ok p) : p.rest <:+ ts := by
  subst hr
  exact h

theorem StaysIn.behind {r : Except Fault (Parsed α ts.length)} {p : Parsed α ts.length}
    (h : StaysIn ts r) (hr : r = .ok p) : Behind p.rest ts :=
  ⟨h.suffix hr, p.shorter⟩

theorem behind_of_expect {t : Token} {reason : Reason}
    {r : { rest : List Lexeme // rest.length < ts.length }} (h : expect t reason ts = .ok r) :
    Behind r.1 ts := by
  have hs := blames_expect t reason ts
  rw [h] at hs
  exact ⟨hs, r.2⟩

theorem behind_of_expectKeyword {k : Keyword} {reason : Reason}
    {r : { rest : List Lexeme // rest.length < ts.length }}
    (h : expectKeyword k reason ts = .ok r) : Behind r.1 ts := by
  have hs := blames_expectKeyword k reason ts
  rw [h] at hs
  exact ⟨hs, r.2⟩

/-- Answers that are those of the readers at all turns below one. -/
structure AgreesBelow (ask : Answers) (r : Reader α) (ts : List Lexeme) : Prop where
  behind : ∀ {β : Type} (s : Reader β) {us : List Lexeme}, Behind us ts → ask s us = s.read us
  same : ∀ {β : Type} (s : Reader β), s.height < r.height → ask s ts = s.read ts

/-! ## Replies -/

theorem bind_eq_reply {r : Except Fault (Parsed α n)} {f : Parsed α n → Except Fault (Parsed β m)}
    {g : α × List Lexeme → Except Fault (β × List Lexeme)}
    (h : ∀ p, r = .ok p → g (p.value, p.rest) = reply (f p)) :
    (reply r >>= g) = reply (r >>= f) := by
  cases r with
  | error e => rfl
  | ok p => exact h p rfl

theorem reply_eq_reply_bind {r : Except Fault (Parsed α n)}
    {f : Parsed α n → Except Fault (Parsed α m)}
    (h : ∀ p, .ok (p.value, p.rest) = reply (f p)) : reply r = reply (r >>= f) := by
  cases r with
  | error e => rfl
  | ok p => exact h p

theorem lift_bind_eq_reply {γ : Type} {x : Except Fault γ} {f : γ → Except Fault (Parsed β m)}
    {g : γ → Except Fault (β × List Lexeme)} (h : ∀ a, x = .ok a → g a = reply (f a)) :
    (x >>= g) = reply (x >>= f) := by
  cases x with
  | error e => rfl
  | ok a => exact h a rfl

/-! ## One turn -/

section Step

variable {ask : Answers}

theorem body_chain {level : Level} (h : AgreesBelow ask (.chain level) ts) :
    Body.chain ask level ts = reply (chain level ts) := by
  rw [Body.chain, h.same (.operand level) (Nat.lt_succ_self _), chain]
  refine bind_eq_reply fun p hp => ?_
  -- The first operand took a token, so its rest may be asked about at any height.
  have hrest : Behind p.rest ts := (staysIn_operand level ts).behind hp
  exact (h.behind (.chainTail level p.value) hrest).trans (reply_eq_reply_bind fun q => rfl)

theorem body_chainTail {level : Level} {left : Expr}
    (h : AgreesBelow ask (.chainTail level left) ts) :
    Body.chainTail ask level left ts = reply (chainTail level left ts) := by
  cases ts with
  | nil =>
    rw [chainTail]
    rfl
  | cons t us =>
    rw [Body.chainTail, chainTail]
    have hus := behind_cons t us
    cases level.operator? t.token with
    | none => rfl
    | some op =>
      dsimp only
      rw [h.behind (.operand level) hus]
      refine bind_eq_reply fun p hp => ?_
      have hrest : Behind p.rest (t :: us) :=
        hus.suffix_trans ((staysIn_operand level us).suffix hp)
      exact (h.behind (.chainTail level _) hrest).trans (reply_eq_reply_bind fun q => rfl)

theorem body_operand {level : Level} (h : AgreesBelow ask (.operand level) ts) :
    Body.operand ask level ts = reply (operand level ts) := by
  cases level with
  | disjunction =>
    rw [operand_disjunction]
    exact h.same (.chain .conjunction) (by decide)
  | conjunction =>
    rw [operand_conjunction]
    exact h.same .negation (by decide)
  | sum =>
    rw [operand_sum]
    exact h.same (.chain .product) (by decide)
  | product =>
    rw [operand_product]
    exact h.same .signed (by decide)

theorem body_negation (h : AgreesBelow ask .negation ts) :
    Body.negation ask ts = reply (negation ts) := by
  cases ts with
  | nil =>
    rw [negation_nil]
    exact h.same .predicate (by decide)
  | cons t us =>
    rw [Body.negation, negation]
    split
    · rw [h.behind .negation (behind_cons t us)]
      exact bind_eq_reply fun p _ => rfl
    · exact h.same .predicate (by decide)

theorem body_predicate (h : AgreesBelow ask .predicate ts) :
    Body.predicate ask ts = reply (predicate ts) := by
  rw [Body.predicate, h.same (.chain .sum) (by decide), predicate]
  refine bind_eq_reply fun p hp => ?_
  have hrest : Behind p.rest ts := (staysIn_chain .sum ts).behind hp
  exact (h.behind (.predicateTail p.value) hrest).trans (reply_eq_reply_bind fun q => rfl)

theorem body_predicateTail {left : Expr} (h : AgreesBelow ask (.predicateTail left) ts) :
    Body.predicateTail ask left ts = reply (predicateTail left ts) := by
  cases ts with
  | nil =>
    rw [predicateTail]
    rfl
  | cons t us =>
    have hus := behind_cons t us
    have hrange := h.same (.rangeTail false left) (Nat.lt_succ_self _)
    rw [Body.predicateTail, predicateTail]
    cases comparison? t.token with
    | some op =>
      dsimp only
      rw [h.behind (.chain .sum) hus]
      exact bind_eq_reply fun p _ => rfl
    | none =>
      cases t.token.keyword? with
      | none => exact hrange
      | some k =>
        cases k with
        | is => exact lift_bind_eq_reply fun r _ => rfl
        | not =>
          dsimp only
          cases startsRange us with
          | true =>
            exact (h.behind (.rangeTail true left) hus).trans (reply_eq_reply_bind fun p => rfl)
          | false => rfl
        | _ => exact hrange

theorem body_rangeTail {negated : Bool} {left : Expr}
    (h : AgreesBelow ask (.rangeTail negated left) ts) :
    Body.rangeTail ask negated left ts = reply (rangeTail negated left ts) := by
  cases ts with
  | nil =>
    rw [rangeTail]
    rfl
  | cons t us =>
    have hus := behind_cons t us
    rw [Body.rangeTail, rangeTail]
    cases t.token.keyword? with
    | none => rfl
    | some k =>
      cases k with
      | between =>
        dsimp only
        rw [h.behind (.chain .sum) hus]
        refine bind_eq_reply fun p hp => lift_bind_eq_reply fun r hr => ?_
        have hvs : Behind p.rest (t :: us) := hus.suffix_trans ((staysIn_chain .sum us).suffix hp)
        have hws : Behind r.1 (t :: us) := hvs.suffix_trans (behind_of_expectKeyword hr).1
        dsimp only
        rw [h.behind (.chain .sum) hws]
        exact bind_eq_reply fun q _ => rfl
      | in_ =>
        refine lift_bind_eq_reply fun r hr => ?_
        have hvs : Behind r.1 (t :: us) := hus.suffix_trans (behind_of_expect hr).1
        dsimp only
        by_cases hselect : headKeyword? r.1 = some .select
        · rw [if_pos hselect, if_pos hselect]
          rfl
        · rw [if_neg hselect, if_neg hselect, h.behind .expressions hvs]
          exact bind_eq_reply fun p _ => lift_bind_eq_reply fun r' _ => rfl
      | like =>
        dsimp only
        rw [h.behind (.chain .sum) hus]
        exact bind_eq_reply fun p _ => rfl
      | _ => rfl

theorem body_signed (h : AgreesBelow ask .signed ts) : Body.signed ask ts = reply (signed ts) := by
  unfold Body.signed
  split
  · rename_i o us
    rw [signed, h.behind .signed (behind_cons _ us)]
    exact bind_eq_reply fun p _ => rfl
  · rename_i o us
    rw [signed]
    exact (h.behind .signed (behind_cons _ us)).trans (reply_eq_reply_bind fun p => rfl)
  · rename_i hm hp
    rw [signed_of_ne hm hp]
    exact h.same .primary (by decide)

/-- A word that is neither NULL nor CURRENT_TIMESTAMP begins a call or a column. -/
theorem body_word {w : String} {t : Lexeme} {us : List Lexeme}
    (h : AgreesBelow ask .primary (t :: us)) (ht : t.token = .word w)
    (hnull : Keyword.ofWord? w ≠ some .null)
    (hnow : Keyword.ofWord? w ≠ some .currentTimestamp) :
    Body.word ask (Keyword.ofWord? w) w t us = reply (primary (t :: us)) := by
  rw [primary, ht]
  dsimp only
  -- `Body.word` stays folded until the reader has come to the parenthesis.
  split
  · exact absurd ‹_› hnull
  · exact absurd ‹_› hnow
  split
  · rename_i o vs
    have hvs : Behind vs (t :: ⟨.lparen, o⟩ :: vs) :=
      (behind_cons _ vs).trans_suffix (List.suffix_cons t _)
    rw [Body.word, h.behind .arguments hvs]
    refine bind_eq_reply fun p _ => ?_
    dsimp only
    cases callTree w p.value <;> rfl
  · rename_i hp
    rw [Body.word_of_ne ask hp]
    unfold Body.bareWord
    cases Keyword.ofWord? w with
    | none =>
      dsimp only
      rw [Body.column, h.behind (.nameParts [w] _) (behind_cons t us)]
      exact bind_eq_reply fun p _ => lift_bind_eq_reply fun e _ => rfl
    | some k => cases k <;> rfl

theorem body_primary (h : AgreesBelow ask .primary ts) :
    Body.primary ask ts = reply (primary ts) := by
  cases ts with
  | nil =>
    rw [primary]
    rfl
  | cons t us =>
    have hus := behind_cons t us
    rw [Body.primary]
    cases ht : t.token with
    | number _ | text _ | date _ =>
      rw [primary, ht]
      rfl
    | lparen =>
      rw [primary, ht]
      dsimp only
      by_cases hselect : headKeyword? us = some .select
      · rw [if_pos hselect, if_pos hselect]
        rfl
      · rw [if_neg hselect, if_neg hselect, h.behind (.chain .disjunction) hus]
        exact bind_eq_reply fun p _ => lift_bind_eq_reply fun r _ => rfl
    | quoted name =>
      rw [primary, ht]
      dsimp only
      rw [Body.column, h.behind (.nameParts [name] _) hus]
      exact bind_eq_reply fun p _ => lift_bind_eq_reply fun e _ => rfl
    | word w =>
      by_cases hnull : Keyword.ofWord? w = some .null
      · rw [primary, ht]
        dsimp only
        rw [hnull]
        rfl
      by_cases hnow : Keyword.ofWord? w = some .currentTimestamp
      · rw [primary, ht]
        dsimp only
        rw [hnow]
        rfl
      dsimp only
      split
      · exact absurd ‹_› hnull
      · exact absurd ‹_› hnow
      · exact body_word h ht hnull hnow
    | _ =>
      rw [primary, ht]
      rfl

theorem body_arguments (h : AgreesBelow ask .arguments ts) :
    Body.arguments ask ts = reply (arguments ts) := by
  unfold Body.arguments
  split
  · rw [arguments]
    rfl
  · rename_i hp
    rw [arguments, h.same .expressions (by decide)]
    · exact bind_eq_reply fun p _ => lift_bind_eq_reply fun r _ => rfl
    · exact hp

theorem body_expressions (h : AgreesBelow ask .expressions ts) :
    Body.expressions ask ts = reply (expressions ts) := by
  rw [Body.expressions, h.same (.chain .disjunction) (by decide), expressions]
  refine bind_eq_reply fun p hp => ?_
  have hrest : Behind p.rest ts := (staysIn_chain .disjunction ts).behind hp
  dsimp only
  rw [h.behind .moreExpressions hrest]
  exact bind_eq_reply fun q _ => rfl

theorem body_moreExpressions (h : AgreesBelow ask .moreExpressions ts) :
    Body.moreExpressions ask ts = reply (moreExpressions ts) := by
  unfold Body.moreExpressions
  split
  · rename_i o us
    rw [moreExpressions]
    exact (h.behind .expressions (behind_cons _ us)).trans (reply_eq_reply_bind fun p => rfl)
  · rename_i hc
    rw [moreExpressions]
    · rfl
    · exact hc

theorem body_nameParts {parts : List String} {last : Place}
    (h : AgreesBelow ask (.nameParts parts last) ts) :
    Body.nameParts ask parts last ts = reply (nameParts parts last ts) := by
  unfold Body.nameParts
  split
  · rename_i o us
    cases us with
    | nil =>
      rw [nameParts]
      rfl
    | cons t vs =>
      rw [nameParts]
      dsimp only
      cases t.token.name? with
      | none => rfl
      | some name =>
        have hvs : Behind vs (⟨.dot, o⟩ :: t :: vs) :=
          (behind_cons t vs).trans_suffix (List.suffix_cons _ _)
        exact (h.behind (.nameParts _ _) hvs).trans (reply_eq_reply_bind fun p => rfl)
  · rename_i hd
    rw [nameParts]
    · rfl
    · exact hd

theorem body_dropHints (h : AgreesBelow ask .dropHints ts) :
    Body.dropHints ask ts = Reader.dropHints.read ts := by
  change _ = (dropHints ts).map fun us => ((), us)
  fun_cases dropHints ts with
  | case1 => rfl
  | case2 t hint o vs =>
    rw [Body.dropHints, if_pos hint]
    exact h.behind .dropHints ((behind_cons _ vs).trans_suffix (List.suffix_cons t _))
  | case3 t hint us hcomma =>
    rw [Body.dropHints, if_pos hint]
    · cases expect .rparen .closeAfterHints us <;> rfl
    · exact hcomma
  | case4 t us hint =>
    rw [Body.dropHints.eq_def]
    dsimp only
    rw [if_neg hint]
    rfl

/-- **What one turn does**: it asks for nothing but the answers at the turns below it. -/
theorem body_eq_read {r : Reader α} (h : AgreesBelow ask r ts) : r.body ask ts = r.read ts := by
  cases r with
  | chain level => exact body_chain h
  | chainTail level left => exact body_chainTail h
  | operand level => exact body_operand h
  | negation => exact body_negation h
  | predicate => exact body_predicate h
  | predicateTail left => exact body_predicateTail h
  | rangeTail negated left => exact body_rangeTail h
  | signed => exact body_signed h
  | primary => exact body_primary h
  | arguments => exact body_arguments h
  | expressions => exact body_expressions h
  | moreExpressions => exact body_moreExpressions h
  | nameParts parts last => exact body_nameParts h
  | dropHints => exact body_dropHints h

end Step

/-- The readers are what their bodies make of the readers' own answers. -/
theorem body_read (r : Reader α) (ts : List Lexeme) :
    r.body (fun _ s us => s.read us) ts = r.read ts :=
  body_eq_read { behind := fun _ _ _ => rfl, same := fun _ _ => rfl }

end MetricBoard.Expression
