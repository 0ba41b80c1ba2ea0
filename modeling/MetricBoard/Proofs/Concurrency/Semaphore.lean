import MetricBoard.Concurrency.Semaphore

/-!
# Semaphores and their users

A semaphore tracks its users if they are just the tasks that hold a permit or wait for one, none of
them twice, and if nobody waits while a permit is free (`Semaphore.Tracks`). A request adds a user,
and a release or a withdrawal takes one out (`Tracks.request`, `Tracks.release`,
`Tracks.withdraw`); none of them takes a permit from another task. Where a task waits, another one holds a permit (`Tracks.exists_holder`), which is
what the absence of deadlocks rests on.
-/

namespace MetricBoard.Semaphore

variable {s : Semaphore} {t u : TaskId} {users : TaskId → Prop}

theorem isHeldBy_iff : s.isHeldBy t = true ↔ t ∈ s.holders := by
  simp [isHeldBy]

/-- The users of a semaphore are those that hold a permit or wait, and permits do not lie idle. -/
structure Tracks (s : Semaphore) (users : TaskId → Prop) : Prop where
  nodup : (s.holders ++ s.waiting).Nodup
  mem_iff : ∀ t, t ∈ s.holders ++ s.waiting ↔ users t
  le_limit : s.holders.length ≤ s.limit
  full : s.waiting ≠ [] → s.holders.length = s.limit

/-! ## Serving -/

@[simp] theorem limit_serve : s.serve.limit = s.limit := by
  unfold serve
  split
  · split <;> rfl
  · rfl

@[simp] theorem limit_request : (s.request t).limit = s.limit := by
  unfold request
  split <;> rfl

@[simp] theorem limit_release : (s.release t).limit = s.limit := by
  simp [release]

theorem mem_holders_serve (h : u ∈ s.holders) : u ∈ s.serve.holders := by
  unfold serve
  split
  · split
    · exact List.mem_append_left _ h
    · exact h
  · exact h

theorem mem_holders_request (h : u ∈ s.holders) : u ∈ (s.request t).holders := by
  unfold request
  split
  · exact List.mem_append_left _ h
  · exact h

theorem mem_holders_release (h : u ∈ s.holders) (hu : u ≠ t) : u ∈ (s.release t).holders :=
  mem_holders_serve ((List.mem_erase_of_ne hu).2 h)

@[simp] theorem limit_withdraw : (s.withdraw t).limit = s.limit := by
  unfold withdraw
  split
  · exact limit_release
  · rfl

theorem mem_holders_withdraw (h : u ∈ s.holders) (hu : u ≠ t) : u ∈ (s.withdraw t).holders := by
  unfold withdraw
  split
  · exact mem_holders_release h hu
  · exact h

/-- Serving moves the first that waits over, so the tasks and their order stay. -/
theorem holders_append_waiting_serve :
    s.serve.holders ++ s.serve.waiting = s.holders ++ s.waiting := by
  unfold serve
  split
  case h_1 v vs hw =>
    split
    · simp [hw]
    · simp [hw]
  case h_2 hw => simp [hw]

/-- One permit fewer than the limit is enough for serving to use all of them. -/
theorem serve_full (h : s.holders.length + 1 = s.limit) (hw : s.serve.waiting ≠ []) :
    s.serve.holders.length = s.limit := by
  unfold serve at hw ⊢
  split at hw
  · rename_i v vs hvs
    rw [if_pos (by omega)]
    simp [h]
  · exact absurd ‹_› hw

theorem serve_le (h : s.holders.length ≤ s.limit) : s.serve.holders.length ≤ s.limit := by
  unfold serve
  split
  · split
    · simpa using Nat.succ_le_of_lt ‹_›
    · exact h
  · exact h

/-! ## Users come and go -/

namespace Tracks

/-- A semaphore that nobody uses. -/
theorem idle (n : Nat) : Tracks { limit := n } fun _ => False where
  nodup := List.nodup_nil
  mem_iff _ := by simp
  le_limit := Nat.zero_le _
  full h := absurd rfl h

theorem congr {users' : TaskId → Prop} (h : s.Tracks users) (hu : ∀ t, users t ↔ users' t) :
    s.Tracks users' :=
  ⟨h.nodup, fun t => (h.mem_iff t).trans (hu t), h.le_limit, h.full⟩

theorem uses_of_mem (h : s.Tracks users) (ht : t ∈ s.holders) : users t :=
  (h.mem_iff t).1 (List.mem_append_left _ ht)

/-- A task that is no user yet becomes one by its request. -/
theorem request (h : s.Tracks users) (ht : ¬ users t) :
    (s.request t).Tracks fun u => u = t ∨ users u := by
  have hnew : t ∉ s.holders ++ s.waiting := fun hm => ht ((h.mem_iff t).1 hm)
  simp only [List.mem_append, not_or] at hnew
  have hnodup := h.nodup
  unfold Semaphore.request
  split
  · rename_i hfree
    simp only [hasFree, Bool.and_eq_true, decide_eq_true_eq, List.isEmpty_iff] at hfree
    obtain ⟨hlt, hw⟩ := hfree
    rw [hw, List.append_nil] at hnodup
    have hle : (s.holders ++ [t]).length ≤ s.limit := by
      rw [List.length_append]
      exact hlt
    refine ⟨?_, fun u => ?_, hle, fun hne => absurd hw hne⟩
    · simpa [hw, List.nodup_append] using ⟨hnodup, fun u hu he => hnew.1 (he ▸ hu)⟩
    · have := h.mem_iff u
      simp only [hw, List.append_nil] at this
      simp [hw, this, or_comm]
  · rename_i hfree
    have hfull : s.holders.length = s.limit := by
      by_cases hw : s.waiting = []
      · have := h.le_limit
        simp only [hasFree, hw, List.isEmpty_nil, Bool.and_true, decide_eq_true_eq] at hfree
        omega
      · exact h.full hw
    refine ⟨?_, fun u => ?_, h.le_limit, fun _ => hfull⟩
    · rw [← List.append_assoc, List.nodup_append]
      refine ⟨hnodup, by simp, fun u hu v hv he => ?_⟩
      obtain rfl : v = t := by simpa using hv
      subst he
      simp [hnew] at hu
    · have := h.mem_iff u
      simp only [List.mem_append] at this
      simp only [List.mem_append, List.mem_singleton, ← this]
      exact ⟨fun h => h.elim (.inr ∘ .inl) fun h => h.symm.imp_right .inr,
        fun h => h.elim (.inr ∘ .inr) fun h => h.imp_right .inl⟩

/-- A task that holds a permit is no user any more once it has given it back. -/
theorem release (h : s.Tracks users) (ht : t ∈ s.holders) :
    (s.release t).Tracks fun u => u ≠ t ∧ users u := by
  have hlen : (s.holders.erase t).length + 1 = s.holders.length := by
    have := List.length_erase_of_mem ht
    have := List.length_pos_of_mem ht
    omega
  have herase : s.holders.erase t ++ s.waiting = (s.holders ++ s.waiting).erase t :=
    (List.erase_append_left _ ht).symm
  have hle := h.le_limit
  refine ⟨?_, fun u => ?_, ?_, fun hw => ?_⟩
  · rw [Semaphore.release, holders_append_waiting_serve, herase]
    exact h.nodup.erase t
  · rw [Semaphore.release, holders_append_waiting_serve, herase, h.nodup.mem_erase_iff, h.mem_iff]
  · rw [limit_release]
    exact serve_le (s := { s with holders := s.holders.erase t }) (by simpa using by omega)
  · rw [limit_release]
    by_cases hsw : s.waiting = []
    · exact absurd (by simp [Semaphore.release, serve, hsw]) hw
    · have := h.full hsw
      exact serve_full (s := { s with holders := s.holders.erase t }) (by simpa using by omega) hw

/-- A task that takes back its request, or the permit that it got by it, is no user any more. -/
theorem withdraw (h : s.Tracks users) : (s.withdraw t).Tracks fun u => u ≠ t ∧ users u := by
  unfold Semaphore.withdraw
  split
  · exact h.release (isHeldBy_iff.1 ‹_›)
  · rename_i hheld
    have hnot : t ∉ s.holders := mt isHeldBy_iff.2 hheld
    have herase : s.holders ++ s.waiting.erase t = (s.holders ++ s.waiting).erase t :=
      (List.erase_append_right _ hnot).symm
    refine ⟨?_, fun u => ?_, h.le_limit, fun hw => h.full fun hnil => hw ?_⟩
    · rw [herase]
      exact h.nodup.erase t
    · rw [herase, h.nodup.mem_erase_iff, h.mem_iff]
    · rw [hnil, List.erase_nil]

/-- A user without a permit waits behind one that has one. -/
theorem exists_holder (h : s.Tracks users) (hpos : 0 < s.limit) (ht : users t)
    (hn : t ∉ s.holders) : ∃ u, u ∈ s.holders := by
  have hw : t ∈ s.waiting := (List.mem_append.1 ((h.mem_iff t).2 ht)).resolve_left hn
  have := h.full (List.ne_nil_of_mem hw)
  exact List.exists_mem_of_length_pos (by omega)

/-- Two tasks with a permit each. -/
theorem two_le_limit (h : s.Tracks users) (ht : t ∈ s.holders) (hu : u ∈ s.holders) (hne : t ≠ u) :
    2 ≤ s.limit := by
  have hle := h.le_limit
  have hpos : 0 < (s.holders.erase t).length :=
    List.length_pos_of_mem ((List.mem_erase_of_ne hne.symm).2 hu)
  rw [List.length_erase_of_mem ht] at hpos
  omega

end Tracks

end MetricBoard.Semaphore
