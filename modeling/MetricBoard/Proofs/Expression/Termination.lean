import MetricBoard.Proofs.Expression.Turns

/-!
# Reading comes to an end

A *turn* is a reader with the tokens that it is given. One turn asks another (`Turn.Asks`) if a
false answer of the other would show in its own reply, and it asks only turns below it
(`Turn.Below`): with fewer tokens, or with the same tokens and a smaller height.

So asking is well-founded, and a reply is there after so many nested turns, whatever would be
answered further down (`within_eq_read`). The loops have height 0: a turn of a loop takes a token
before it asks for anything, its own next turn included. The main statement is `reading_terminates`.
-/

namespace MetricBoard.Expression

variable {α : Type} {n : Nat} {ts us : List Lexeme}

/-! ## Turns -/

/-- A reader with the tokens that it is given. -/
structure Turn where
  {Value : Type}
  reader : Reader Value
  tokens : List Lexeme

/-- One turn asks another: it would reply otherwise if only the answer of the other were false. A
fault given in answer goes through to the reply, so all that is asked shows. -/
def Turn.Asks (c d : Turn) : Prop :=
  ∃ ask : Answers, (∀ e : Turn, e ≠ d → ask e.reader e.tokens = e.reader.read e.tokens) ∧
    c.reader.body ask c.tokens ≠ c.reader.read c.tokens

/-- A turn asks another if a fault there would be its own. -/
theorem Turn.asks_of_error {c d : Turn}
    (h : ∀ (ask : Answers) (f : Fault), ask d.reader d.tokens = .error f →
      c.reader.body ask c.tokens = .error f) : c.Asks d := by
  classical
  -- One of two faults differs from the one that the turn may have of its own.
  obtain ⟨f, hf⟩ : ∃ f : Fault, c.reader.read c.tokens ≠ .error f := by
    by_contra hall
    simp only [ne_eq, not_exists, not_not] at hall
    cases (hall ⟨.finish, .top⟩).symm.trans (hall ⟨.finish, .join⟩)
  refine ⟨fun _ r ts => if Turn.mk r ts = d then .error f else r.read ts, fun e he => if_neg he,
    fun hbody => hf ?_⟩
  rw [← hbody]
  exact h _ f (if_pos rfl)

theorem chainTail_asks_operand {level : Level} {t : Lexeme} {op : BinaryOp}
    (h : level.operator? t.token = some op) (left : Expr) (us : List Lexeme) :
    Turn.Asks ⟨.chainTail level left, t :: us⟩ ⟨.operand level, us⟩ := by
  refine Turn.asks_of_error fun ask f hf => ?_
  change ask (.operand level) us = .error f at hf
  change Body.chainTail ask level left (t :: us) = .error f
  rw [Body.chainTail, h]
  dsimp only
  rw [hf]
  rfl

/-- A level goes on to the next one before any token is taken: their number alone is no measure. -/
theorem chain_asks_operand (level : Level) (ts : List Lexeme) :
    Turn.Asks ⟨.chain level, ts⟩ ⟨.operand level, ts⟩ := by
  refine Turn.asks_of_error fun ask f hf => ?_
  change ask (.operand level) ts = .error f at hf
  change Body.chain ask level ts = .error f
  rw [Body.chain, hf]
  rfl

/-- Fewer tokens, or the same for a reader of smaller height. -/
def Turn.Below (d c : Turn) : Prop :=
  Behind d.tokens c.tokens ∨ d.tokens = c.tokens ∧ d.reader.height < c.reader.height

theorem Turn.below_of_asks {c d : Turn} (h : c.Asks d) : d.Below c := by
  obtain ⟨ask, hask, hne⟩ := h
  by_contra hd
  have hagree (e : Turn) (he : e.Below c) : ask e.reader e.tokens = e.reader.read e.tokens :=
    hask e fun hed => hd (hed ▸ he)
  exact hne (body_eq_read
    { behind := fun s us hus => hagree ⟨s, us⟩ (Or.inl hus)
      same := fun s hs => hagree ⟨s, c.tokens⟩ (Or.inr ⟨rfl, hs⟩) })

theorem Level.height_le (l : Level) : l.height ≤ 11 := by
  cases l <;> decide

theorem Reader.height_le (r : Reader α) : r.height ≤ 14 := by
  cases r with
  | chain level =>
    have := level.height_le
    simp only [Reader.height]
    omega
  | operand level =>
    have := level.height_le
    simp only [Reader.height]
    omega
  | _ => simp [Reader.height]

/-- How many turns may be nested from one on: 15 for each token, and the height. -/
def Turn.depth (c : Turn) : Nat := 15 * c.tokens.length + c.reader.height

theorem Turn.Below.depth_lt {c d : Turn} (h : d.Below c) : d.depth < c.depth := by
  have hd := d.reader.height_le
  unfold Turn.depth
  rcases h with ⟨-, hlt⟩ | ⟨heq, hlt⟩
  · omega
  · rw [heq]
    omega

theorem Turn.asks_wellFounded : WellFounded fun d c : Turn => c.Asks d :=
  Subrelation.wf (fun h => (Turn.below_of_asks h).depth_lt) (measure Turn.depth).wf

/-- What the readers reply if turns nested so deep are answered as given. -/
def Answers.within (base : Answers) : Nat → Answers
  | 0 => base
  | n + 1 => fun _ r ts => r.body (base.within n) ts

/-- **Turns end**: the reply is there after as many nested turns as the depth tells, whatever would
be answered further down. -/
theorem within_eq_read (base : Answers) {n : Nat} (r : Reader α) (ts : List Lexeme)
    (h : Turn.depth ⟨r, ts⟩ < n) : base.within n r ts = r.read ts := by
  induction n generalizing α ts with
  | zero => omega
  | succ n ih =>
    have hbelow (d : Turn) (hd : d.Below ⟨r, ts⟩) : d.depth < n := by
      have := hd.depth_lt
      omega
    exact body_eq_read
      { behind := fun s us hus => ih s us (hbelow ⟨s, us⟩ (Or.inl hus))
        same := fun s hs => ih s ts (hbelow ⟨s, ts⟩ (Or.inr ⟨rfl, hs⟩)) }

/-! ## Progress -/

/-- The readers that go on from what was read already, and may find nothing more. -/
def Reader.isTail : Reader α → Bool
  | .chainTail .. | .predicateTail _ | .rangeTail .. | .moreExpressions | .nameParts .. => true
  | _ => false

/-- The loops: operators with their operands, further expressions, further parts of a name, and
lock hints. -/
def Reader.isLoop : Reader α → Bool
  | .chainTail .. | .moreExpressions | .nameParts .. | .dropHints => true
  | _ => false

theorem Reader.height_of_isLoop {r : Reader α} (h : r.isLoop = true) : r.height = 0 := by
  cases r with
  | chainTail _ _ | moreExpressions | nameParts _ _ | dropHints => rfl
  | _ => simp [Reader.isLoop] at h

theorem StaysIn.behind_of_reply {r : Except Fault (Parsed α ts.length)} (h : StaysIn ts r)
    {value : α} (hr : reply r = .ok (value, us)) : Behind us ts := by
  cases r with
  | error e => cases hr
  | ok p =>
    obtain ⟨-, rfl⟩ := Prod.mk.inj (Except.ok.inj hr)
    exact h.behind rfl

theorem behind_of_dropHints (h : dropHints ts = .ok us) : Behind us ts := by
  fun_induction dropHints ts with
  | case1 | case4 => cases h
  | case2 t _ o vs ih =>
    exact (ih h).trans_suffix ⟨[t, ⟨.comma, o⟩], rfl⟩
  | case3 t _ vs =>
    cases he : expect .rparen .closeAfterHints vs with
    | error f =>
      rw [he] at h
      cases h
    | ok r =>
      rw [he] at h
      obtain rfl := Except.ok.inj h
      exact (behind_of_expect he).trans_suffix (List.suffix_cons t vs)

/-- A reader that succeeds took a token, unless it only goes on from what was read. -/
theorem behind_of_read {r : Reader α} (hr : r.isTail = false) {value : α}
    (h : r.read ts = .ok (value, us)) : Behind us ts := by
  cases r with
  | chain level => exact (staysIn_chain level ts).behind_of_reply h
  | operand level => exact (staysIn_operand level ts).behind_of_reply h
  | negation => exact (staysIn_negation ts).behind_of_reply h
  | predicate => exact (staysIn_predicate ts).behind_of_reply h
  | signed => exact (staysIn_signed ts).behind_of_reply h
  | primary => exact (staysIn_primary ts).behind_of_reply h
  | arguments => exact (staysIn_arguments ts).behind_of_reply h
  | expressions => exact (staysIn_expressions ts).behind_of_reply h
  | dropHints =>
    change (dropHints ts).map (fun us => ((), us)) = _ at h
    cases hd : dropHints ts with
    | error f =>
      rw [hd] at h
      cases h
    | ok vs =>
      rw [hd] at h
      obtain ⟨-, rfl⟩ := Prod.mk.inj (Except.ok.inj h)
      exact behind_of_dropHints hd
  | chainTail _ _ | predicateTail _ | rangeTail _ _ | moreExpressions | nameParts _ _ =>
    simp [Reader.isTail] at hr

theorem Turn.behind_of_asks {r : Reader α} (hr : r.isLoop = true) {d : Turn}
    (h : Turn.Asks ⟨r, ts⟩ d) : Behind d.tokens ts := by
  rcases Turn.below_of_asks h with hlt | ⟨-, hlt⟩
  · exact hlt
  · rw [Reader.height_of_isLoop hr] at hlt
    omega

/-- Some tokens go on to their end from a place behind the one at an index. -/
def GoesOnBehind (ts : List Lexeme) (index : Nat) (us : List Lexeme) : Prop :=
  ∃ next, index < next ∧ next ≤ ts.length ∧ us = ts.drop next

theorem goesOnBehind_of_behind {index : Nat} (h : Behind us (ts.drop index)) :
    GoesOnBehind ts index us := by
  have hs : us <:+ ts := h.1.trans (List.drop_suffix index ts)
  have hlt := h.2
  rw [List.length_drop] at hlt
  exact ⟨ts.length - us.length, by omega, Nat.sub_le _ _, List.suffix_iff_eq_drop.1 hs⟩

/-- **Reading comes to an end**, whatever the tokens are and wherever it begins. No turn asks for
ever: a reply is there after as many nested turns as 15 for each token left, and the height of the
reader, whatever would be answered further down. A reader that succeeds, a call among the primaries
included, has moved on by a token at least and not past the last one, unless it only goes on from
what was read. And a loop asks for nothing, its own next turn included, before it took a token. -/
theorem reading_terminates (ts : List Lexeme) (index : Nat) :
    (WellFounded fun d c : Turn => c.Asks d) ∧
    (∀ (base : Answers) {α : Type} (r : Reader α) (n : Nat),
      15 * (ts.length - index) + r.height < n →
        base.within n r (ts.drop index) = r.read (ts.drop index)) ∧
    (∀ {α : Type} (r : Reader α), r.isTail = false → ∀ value us,
      r.read (ts.drop index) = .ok (value, us) → GoesOnBehind ts index us) ∧
    (∀ {α : Type} (r : Reader α), r.isLoop = true → ∀ d : Turn,
      Turn.Asks ⟨r, ts.drop index⟩ d → GoesOnBehind ts index d.tokens) := by
  refine ⟨Turn.asks_wellFounded, fun base α r n h => ?_, fun r hr value us h => ?_,
    fun r hr d h => ?_⟩
  · refine within_eq_read base r (ts.drop index) ?_
    rwa [Turn.depth, List.length_drop]
  · exact goesOnBehind_of_behind (behind_of_read hr h)
  · exact goesOnBehind_of_behind (Turn.behind_of_asks hr h)

/-- The tokens of `(1 + 2)`. -/
def sumInParens : List Lexeme :=
  [⟨.lparen, 0⟩, ⟨.number "1", 1⟩, ⟨.plus, 3⟩, ⟨.number "2", 5⟩, ⟨.rparen, 6⟩]

/-- From the first number on, the sum is read up to the parenthesis; its loop asks for the second
number behind the sign. -/
theorem reading_terminates_sum :
    (Reader.chain .sum).read (sumInParens.drop 1) =
      .ok (.binary .add (.number "1") (.number "2"), sumInParens.drop 4) ∧
    GoesOnBehind sumInParens 1 (sumInParens.drop 4) ∧
    Turn.Asks ⟨.chainTail .sum (.number "1"), sumInParens.drop 2⟩
      ⟨.operand .sum, sumInParens.drop 3⟩ ∧
    GoesOnBehind sumInParens 2 (sumInParens.drop 3) := by
  have hread : (Reader.chain .sum).read (sumInParens.drop 1) =
      .ok (.binary .add (.number "1") (.number "2"), sumInParens.drop 4) :=
    ((reading_terminates sumInParens 1).2.1 (fun _ _ us => .error (faultAt us .endOfExpression))
      (.chain .sum) 66 (by decide)).symm.trans rfl
  have hasks : Turn.Asks ⟨.chainTail .sum (.number "1"), sumInParens.drop 2⟩
      ⟨.operand .sum, sumInParens.drop 3⟩ :=
    chainTail_asks_operand (show Level.sum.operator? .plus = some .add from rfl) _ _
  exact ⟨hread, (reading_terminates sumInParens 1).2.2.1 (.chain .sum) rfl _ _ hread, hasks,
    (reading_terminates sumInParens 2).2.2.2 (.chainTail .sum (.number "1")) rfl _ hasks⟩

end MetricBoard.Expression
