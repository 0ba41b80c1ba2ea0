import MetricBoard.Store.History

/-!
# Calls on the store

The calls that change the store (`Change`): those that edit the definitions (`Edit`), pruning the
history, and saving a report. What the parts of a call come to is read off with one lemma for each
way of putting parts together: a statement, a sequence, a transaction.
-/

namespace MetricBoard.Store

/-- What a call answers. -/
inductive Answer where
  | saved
  | replaced (c : CatalogChange)
  | recorded (s : Snapshot)
  | pruned (p : Pruned)
  deriving DecidableEq, Repr

/-- A call that changes the definitions. -/
inductive Edit where
  | save (d : Definition)
  | replaceCatalog (ds : List Definition)
  | recordRefresh (id : String) (w : Write)
  deriving DecidableEq, Repr

/-- A call that changes the store. -/
inductive Change where
  | edit (e : Edit)
  /-- Everything from before a time is removed from the history. -/
  | prune (cutoff : String)
  | saveReport (r : Report)
  deriving DecidableEq, Repr

/-- The work of an edit. -/
def Edit.work : Edit → Work Answer
  | save d => do
    Store.save d
    return .saved
  | replaceCatalog ds => return .replaced (← Store.replaceCatalog ds)
  | recordRefresh id w => return .recorded (← Store.recordRefresh id w)

/-- The work of a call. -/
def Change.work : Change → Work Answer
  | edit e => e.work
  | prune cutoff => return .pruned (← Store.prune cutoff)
  | saveReport r => do
    Store.saveReport r
    return .saved

/-- The definition of a metric that was never refreshed. -/
def orders : Definition :=
  ⟨"orders", "", "", .relational, none, "COUNT(*) FROM t", .zero, none, none⟩

/-! ## Repeated ids -/

/-- The first id that stands among ids before it. -/
def repeated? (seen : List String) : List Definition → Option String
  | [] => none
  | d :: ds => if seen.contains d.id then some d.id else repeated? (d.id :: seen) ds

/-- Ids are repeated unless each is new. -/
theorem repeated?_eq_none_iff {seen : List String} {ds : List Definition} :
    repeated? seen ds = none ↔
      (ds.map Definition.id).Nodup ∧ ∀ d ∈ ds, d.id ∉ seen := by
  induction ds generalizing seen with
  | nil => simp [repeated?]
  | cons d ds ih =>
    rw [repeated?]
    by_cases hseen : d.id ∈ seen
    · simp [hseen]
    · rw [if_neg (by simpa using hseen), ih, List.map_cons, List.nodup_cons, List.mem_map]
      constructor
      · rintro ⟨hnodup, hnew⟩
        refine ⟨⟨?_, hnodup⟩, ?_⟩
        · rintro ⟨d', hd', hid⟩
          exact hnew d' hd' (hid ▸ List.mem_cons_self)
        · rintro d' (_ | ⟨_, hd'⟩)
          · exact hseen
          · exact fun hmem => hnew d' hd' (List.mem_cons_of_mem _ hmem)
      · rintro ⟨⟨hd, hnodup⟩, hnew⟩
        refine ⟨hnodup, fun d' hd' hmem => ?_⟩
        rcases List.mem_cons.1 hmem with hid | hmem
        · exact hd ⟨d', hd', hid⟩
        · exact hnew d' (List.mem_cons_of_mem _ hd') hmem

/-! ## Parts of a call -/

section

variable {α β : Type} {x work : Work α} {f : α → Work β}
  {run : Tables → Except AppError (α × Tables)} {s s' : Session} {a : α} {b : β} {e : AppError}

theorem bind_apply (x : Work α) (f : α → Work β) (s : Session) :
    (x >>= f) s = match x s with
      | (.ok a, s') => f a s'
      | (.error e, s') => (.error e, s') := by
  rcases h : x s with ⟨r, s'⟩
  cases r <;> simp only [bind, ExceptT.bind, ExceptT.mk, StateT.bind, h] <;> rfl

theorem bind_eq_ok (h : (x >>= f) s = (.ok b, s')) :
    ∃ a s₁, x s = (.ok a, s₁) ∧ f a s₁ = (.ok b, s') := by
  rw [bind_apply] at h
  split at h
  · exact ⟨_, _, ‹_›, h⟩
  · cases h

theorem bind_eq_error (h : (x >>= f) s = (.error e, s')) :
    x s = (.error e, s') ∨ ∃ a s₁, x s = (.ok a, s₁) ∧ f a s₁ = (.error e, s') := by
  rw [bind_apply] at h
  split at h
  · exact .inr ⟨_, _, ‹_›, h⟩
  · cases h
    exact .inl ‹_›

theorem present_bind_eq_ok {γ δ : Type} {o : Option γ} {g : γ → Except AppError δ} {d : δ} :
    (present o >>= g) = .ok d ↔ ∃ c, o = some c ∧ g c = .ok d := by
  cases o with
  | none => simp [present, bind, Except.bind]
  | some c => simp [present, bind, Except.bind]

/-- With a table that is there, what needs no more than the table can be done. -/
theorem eq_none_of_present_bind {γ δ : Type} {o : Option γ} {g : γ → δ}
    (h : (present o >>= fun c => pure (g c)) = .error e) : o = none := by
  cases o with
  | none => rfl
  | some c => cases h

/-- A statement that is executed was not refused. -/
theorem statement_eq_ok (h : statement run s = (.ok a, s')) :
    s.refusals.head? ≠ some true ∧ run s.tables = .ok (a, s'.tables) ∧
      s'.refusals = s.refusals.tail := by
  unfold statement at h
  split at h
  · cases h
  · rename_i hrefused
    split at h <;> cases h
    refine ⟨fun hhead => ?_, ‹_›, rfl⟩
    obtain ⟨rest, hrest⟩ := List.head?_eq_some_iff.1 hhead
    exact hrefused rest hrest

/-- A statement that fails was refused, or could not be done; either way it has done nothing. -/
theorem statement_eq_error (h : statement run s = (.error e, s')) :
    s'.tables = s.tables ∧ (s.refusals.head? = some true ∨ run s.tables = .error e) := by
  unfold statement at h
  split at h
  · rename_i rest hrefused
    cases h
    exact ⟨rfl, .inl (by rw [hrefused]; rfl)⟩
  · split at h <;> cases h
    exact ⟨rfl, .inr ‹_›⟩

theorem readDefinitions_eq_ok {f : DefinitionTable → Except AppError α}
    (h : readDefinitions f s = (.ok a, s')) : s'.tables = s.tables := by
  obtain ⟨-, hrun, -⟩ := statement_eq_ok h
  obtain ⟨d, -, hrun⟩ := present_bind_eq_ok.1 hrun
  cases hf : f d with
  | error e => rw [hf] at hrun; cases hrun
  | ok b =>
    rw [hf] at hrun
    exact (Prod.ext_iff.1 (Except.ok.inj hrun)).2.symm

theorem transaction_eq_ok (h : transaction work s = (.ok a, s')) :
    ∃ s₁ s₂, s₁.tables = s.tables ∧ work s₁ = (.ok a, s₂) ∧ s'.tables = s₂.tables := by
  unfold transaction at h
  dsimp only at h
  split at h
  · rename_i after hwhole
    cases h
    obtain ⟨_, s₁, hbegin, hwhole⟩ := bind_eq_ok hwhole
    obtain ⟨_, s₂, hwork, hwhole⟩ := bind_eq_ok hwhole
    obtain ⟨_, s₃, hcommit, hwhole⟩ := bind_eq_ok hwhole
    cases hwhole
    obtain ⟨-, hbegin, -⟩ := statement_eq_ok hbegin
    obtain ⟨-, hcommit, -⟩ := statement_eq_ok hcommit
    rw [Except.ok.injEq, Prod.mk.injEq] at hbegin hcommit
    exact ⟨s₁, s₂, hbegin.2.symm, hwork, hcommit.2.symm⟩
  · cases h

/-- A transaction that fails has done nothing. -/
theorem transaction_eq_error (h : transaction work s = (.error e, s')) : s'.tables = s.tables := by
  unfold transaction at h
  dsimp only at h
  split at h <;> cases h
  rfl

end

end MetricBoard.Store
