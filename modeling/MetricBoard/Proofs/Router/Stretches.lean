import MetricBoard.Proofs.Router.Traffic

/-!
# Tasks that give way where they wait

A task gives way to others only where it waits, for a lock or for a server (`Call.pauses`). What it
does in between is one step to the others (`Stretch`), and it is soon over
(`World.Orderly.exists_stretch`). The traffic of such tasks (`Cooperative`) is traffic like any
other (`Cooperative.traffic`), and what is said of the steps of traffic holds of it.

It keeps one law more: a connection that is not retired is the one in the slot of its server
(`Cooperative.cached_of_not_retired`). For a connection is retired in the stretch in which it is
taken out, whoever takes it out.
-/

namespace MetricBoard

/-- An elementary call waits for a lock or for a server. -/
def Call.pauses : Call → Bool
  | acquire (.queued _ _) | acquire (.connecting _ _) => true
  | statement (.queued _ _ _) | statement (.running _ _ _) => true
  | invalidate (.evicting _ (.queued _ _)) | invalidate (.closing _) => true
  | discard ⟨_, .queued _ _⟩ => true
  | close (.queued _) | close (.closing _) => true
  | closing _ => true
  | _ => false

/-- A task waits for a lock or for a server, or has ended. -/
def World.rests (w : World) (t : TaskId) : Bool := (w.call? t).all fun c => c.current.pauses

/-- A task takes steps until it has to wait, or ends. -/
inductive Stretch (t : TaskId) : World → List Move → World → Prop
  | last {w w' : World} {out : Outside} {res : Option Result} :
    w.step out t = some (w', res) → w'.rests t = true → Stretch t w [⟨w, t, out, w', res⟩] w'
  | more {w w' w'' : World} {out : Outside} {res : Option Result} {xs : List Move} :
    w.step out t = some (w', res) → w'.rests t = false → Stretch t w' xs w'' →
    Stretch t w (⟨w, t, out, w', res⟩ :: xs) w''

/-- The traffic of calls of some kind, if tasks give way only where they wait. -/
inductive Cooperative (made : Call → Prop) : List Move → World → Prop
  | quiet {e : Engine} : e.router.slots = .const {} → e.router.connections = [] →
    Cooperative made [] ⟨e, []⟩
  | call {xs : List Move} {w : World} {c : Call} : Cooperative made xs w → made c →
    c.Begins w.engine.router → Cooperative made xs (w.spawn [.call c])
  | configure {xs : List Move} {w : World} (servers : PerTarget (Option ServerConfig)) :
    Cooperative made xs w → Cooperative made xs { w with engine.router.servers := servers }
  | stretch {xs ys : List Move} {w w' : World} {t : TaskId} :
    Cooperative made xs w → Stretch t w ys w' → Cooperative made (xs ++ ys) w'

theorem Stretch.traffic {made : Call → Prop} {t : TaskId} {xs ys : List Move} {w w' : World}
    (hs : Stretch t w ys w') (h : Traffic made xs w) : Traffic made (xs ++ ys) w' := by
  induction hs generalizing xs with
  | last hstep => exact h.move hstep
  | more hstep _ _ ih =>
    rw [← List.singleton_append, ← List.append_assoc]
    exact ih (h.move hstep)

theorem Cooperative.traffic {made : Call → Prop} {xs : List Move} {w : World}
    (h : Cooperative made xs w) : Traffic made xs w := by
  induction h with
  | quiet hslots hconnections => exact .quiet hslots hconnections
  | call _ hc hbegins ih => exact ih.call hc hbegins
  | configure servers _ ih => exact ih.configure servers
  | stretch _ hs ih => exact hs.traffic ih

/-! ## Nothing is left half done -/

theorem Call.doomed_of_pauses {c : Call} (h : c.pauses = true) : c.grip.doomed = none := by
  unfold pauses at h
  split at h <;> first | rfl | cases h

namespace World

variable {w w' : World} {t u : TaskId} {out : Outside} {res : Option Result}

theorem doomed_of_rests (h : w.rests t = true) : (w.grip t).doomed = none := by
  cases hc : w.call? t with
  | none => rw [grip, hc]; rfl
  | some c =>
    rw [grip_of_call? hc]
    rw [rests, hc] at h
    exact Call.doomed_of_pauses h

theorem Orderly.next (hw : w.Orderly) (h : w.step out t = some (w', res)) : w'.Orderly := by
  obtain ⟨c, s, hc, hs, rfl, -⟩ := hw.step h
  exact hw.afterCall hc hs

theorem Orderly.doomed_of_ne (hw : w.Orderly) (h : w.step out t = some (w', res)) (hu : u ≠ t) :
    (w'.grip u).doomed = (w.grip u).doomed := by
  obtain ⟨c, s, hc, hs, rfl, -⟩ := hw.step h
  exact doomed_afterCall_of_ne (lt_of_call? hc) hu

end World

/-- A task that waits, and did not before, has retired what it has taken out. -/
theorem Stretch.doomed {t : TaskId} {xs : List Move} {w w' : World} (hs : Stretch t w xs w')
    (hw : w.Orderly) (h : ∀ u, u ≠ t → (w.grip u).doomed = none) (u : TaskId) :
    (w'.grip u).doomed = none := by
  induction hs with
  | last hstep hrests =>
    by_cases hu : u = t
    · exact hu ▸ World.doomed_of_rests hrests
    · rw [hw.doomed_of_ne hstep hu, h u hu]
  | more hstep _ _ ih =>
    exact ih (hw.next hstep) fun v hv => by rw [hw.doomed_of_ne hstep hv, h v hv]

/-- Nobody is about to retire a connection. -/
theorem Cooperative.doomed {made : Call → Prop} {xs : List Move} {w : World}
    (h : Cooperative made xs w) (t : TaskId) : (w.grip t).doomed = none := by
  induction h generalizing t with
  | quiet => simp [World.grip, World.call?, World.activity?]
  | call _ _ hc ih => rw [World.grip_spawn hc, ih]
  | configure _ _ ih => exact ih t
  | stretch hx hs ih => exact hs.doomed hx.traffic.orderly (fun u _ => ih u) t

/-- A connection that is not retired is the one in the slot of its server. -/
theorem Cooperative.cached_of_not_retired {made : Call → Prop} {xs : List Move} {w : World}
    {c : ConnectionId} {target : Target} (h : Cooperative made xs w)
    (hc : w.engine.router.target? c = some target) (hret : w.engine.router.isRetired c = false) :
    w.engine.router.cached target = some c := by
  refine (h.traffic.orderly.doomed c target hc hret).resolve_right fun ⟨t, ht⟩ => ?_
  rw [h.doomed t] at ht
  cases ht

/-! ## A stretch is soon over -/

namespace Close

variable {t : TaskId} {ans : Option Answer} {r : Router} {k : Close} {s : RouterStep Close Unit}

/-- A bound on the steps that are left. -/
def rank : Close → Nat
  | start _ => 6
  | queued _ => 5
  | removed _ _ => 4
  | released _ _ => 3
  | hidden _ => 2
  | closing _ => 1

theorem rank_le (k : Close) : k.rank ≤ 6 := by
  cases k <;> simp [rank]

theorem step_rank (h : k.step t ans r = some s) : s.rank rank < k.rank := by
  cases does_of_step h <;> simp [RouterStep.rank, Next.rank, rank]

end Close

namespace Shutdown

/-- A bound on the steps that are left. -/
def rank : Shutdown → Nat
  | first k => k.rank + 6
  | second k => k.rank

theorem step_rank {t : TaskId} {ans : Option Answer} {r : Router} {k : Shutdown}
    {s : RouterStep Shutdown Unit} (h : k.step t ans r = some s) : s.rank rank < k.rank := by
  cases k with
  | first k =>
    obtain ⟨s', hs', rfl⟩ := Option.map_eq_some_iff.1 h
    exact RouterStep.rank_within_lt (fun _ => rfl) (fun _ => Close.rank_le (.start .fileDatabase))
      (Close.step_rank hs')
  | second k =>
    obtain ⟨s', hs', rfl⟩ := Option.map_eq_some_iff.1 h
    change _ < k.rank + 0
    exact RouterStep.rank_within_lt (fun _ => rfl) (fun _ => Nat.le_refl _) (Close.step_rank hs')

end Shutdown

namespace Call

/-- A bound on the steps that are left. -/
def rank : Call → Nat
  | acquire a => a.rank
  | statement q => q.rank
  | execute x => x.rank
  | invalidate i => i.rank
  | discard d => d.rank
  | close k => k.rank
  | shutdown k => k.rank
  | closing _ => 1

variable {c : Call} {t : TaskId} {ans : Option Answer} {r : Router} {s : RouterStep Call CallResult}

theorem step_rank (h : c.step t ans r = some s) : s.rank rank < c.rank := by
  have hwithin : ∀ {σ ρ : Type} {f : σ → Nat} {inner : σ → Call} {y : ρ → CallResult} {n : Nat}
      {s : RouterStep σ ρ}, (∀ x, rank (inner x) = f x) → s.rank f < n →
        (s.within inner fun x => .done (y x)).rank rank < n := fun hi hlt =>
    RouterStep.rank_within_lt (k := 0) hi (fun _ => Nat.le_refl _) hlt
  cases c with
  | acquire a =>
    obtain ⟨s', hs', rfl⟩ := Option.map_eq_some_iff.1 h
    exact hwithin (fun _ => rfl) (Acquire.step_rank hs')
  | statement q =>
    obtain ⟨s', hs', rfl⟩ := Option.map_eq_some_iff.1 h
    exact hwithin (fun _ => rfl) (Statement.step_rank hs')
  | execute x =>
    obtain ⟨s', hs', rfl⟩ := Option.map_eq_some_iff.1 h
    exact hwithin (fun _ => rfl) (Execute.step_rank hs')
  | invalidate i =>
    obtain ⟨s', hs', rfl⟩ := Option.map_eq_some_iff.1 h
    exact hwithin (fun _ => rfl) (Invalidate.step_rank hs')
  | discard d =>
    obtain ⟨s', hs', rfl⟩ := Option.map_eq_some_iff.1 h
    exact hwithin (fun _ => rfl) (Discard.step_rank hs')
  | close k =>
    obtain ⟨s', hs', rfl⟩ := Option.map_eq_some_iff.1 h
    exact hwithin (fun _ => rfl) (Close.step_rank hs')
  | shutdown k =>
    obtain ⟨s', hs', rfl⟩ := Option.map_eq_some_iff.1 h
    exact hwithin (fun _ => rfl) (Shutdown.step_rank hs')
  | closing d =>
    obtain rfl := eq_of_closing h
    exact Nat.zero_lt_one

/-- A call can take a step if its elementary call can. -/
theorem isSome_step_current : (c.current.step t ans r).isSome = (c.step t ans r).isSome := by
  cases c with
  | execute x => cases x <;> simp [current, step, Execute.step]
  | shutdown k => cases k <;> simp [current, step, Shutdown.step]
  | _ => rfl

/-- A call that does not wait can go on. -/
theorem isSome_step (h : c.current.pauses = false) : (c.step t ans r).isSome = true := by
  have hevict : ∀ v : Evict, (∀ target d, v ≠ .queued target d) → (v.step t r).isSome = true := by
    intro v hv
    cases v with
    | queued target d => exact absurd rfl (hv target d)
    | start | removed | hidden | leaving => rfl
  rw [← isSome_step_current]
  have he := c.isElementary_current
  cases hc : c.current with
  | acquire a =>
    rw [hc] at h
    cases a with
    | queued | connecting => cases h
    | start target =>
      simp only [step, Acquire.step]
      split <;> rfl
    | empty | cached | refused | leaving => rfl
  | statement q =>
    rw [hc] at h
    cases q with
    | queued | running => cases h
    | start | overdue | leaving => rfl
  | invalidate i =>
    rw [hc] at h
    cases i with
    | closing => cases h
    | evicting d v =>
      simp only [step, Invalidate.step, Option.isSome_map]
      exact hevict v fun _ _ hv => by simp [hv, pauses] at h
  | discard d =>
    rw [hc] at h
    simp only [step, Discard.step, Option.isSome_map]
    exact hevict d.evict fun target e hv => by
      obtain ⟨d, v⟩ := d
      obtain rfl : v = .queued target e := hv
      cases h
  | close k =>
    rw [hc] at h
    cases k with
    | queued | closing => cases h
    | start | removed | released | hidden => rfl
  | closing =>
    rw [hc] at h
    cases h
  | execute | shutdown =>
    rw [hc] at he
    exact he.elim

end Call

namespace World

variable {w w' : World} {t : TaskId} {out : Outside} {res : Option Result}

/-- A task can take the steps of its call. -/
theorem exists_step {k : Call} (hk : w.call? t = some k)
    (h : (k.step t out.answer w.engine.router).isSome = true) :
    ∃ w' res, w.step out t = some (w', res) := by
  cases hstep : w.step out t with
  | some p => exact ⟨p.1, p.2, rfl⟩
  | none =>
    have hnone := Option.map_eq_none_iff.1 (step_eq_none (call?_eq_some.1 hk) hstep)
    exact absurd h (Option.not_isSome_iff_eq_none.2 hnone)

/-- A task that takes a step has soon to wait, or ends. -/
theorem Orderly.exists_stretch (hw : w.Orderly) (h : w.step out t = some (w', res)) :
    ∃ xs w'', Stretch t w (⟨w, t, out, w', res⟩ :: xs) w'' := by
  -- the induction is on what is left of the call after the step
  generalize hn : (w'.call? t).elim 0 Call.rank = n
  induction n using Nat.strong_induction_on generalizing w out w' res with
  | h n ih =>
    cases hrests : w'.rests t with
    | true => exact ⟨[], w', .last h hrests⟩
    | false =>
      have hw' := hw.next h
      cases hk : w'.call? t with
      | none => simp [rests, hk] at hrests
      | some k =>
        rw [rests, hk, Option.all_some] at hrests
        obtain ⟨w'', res', hstep⟩ : ∃ w'' res', w'.step (.answering none) t = some (w'', res') :=
          exists_step hk (Call.isSome_step hrests)
        obtain ⟨k', s, hk', hs, rfl, -⟩ := hw'.step hstep
        obtain rfl := Option.some.inj (hk.symm.trans hk')
        have hless : ((w'.afterCall t s).call? t).elim 0 Call.rank < n := by
          have hrank := Call.step_rank hs
          rw [← hn, hk, call?_afterCall_self (lt_of_call? hk)]
          rw [RouterStep.rank] at hrank
          cases hnext : s.next <;> simp [hnext, Next.rank, Next.stage?] at hrank ⊢ <;> omega
        obtain ⟨xs, w'', hxs⟩ := ih _ hless hw' hstep rfl
        exact ⟨_, w'', .more h (by rwa [rests, hk, Option.all_some]) hxs⟩

end World

/-- The stretch of a task, if it is over after a number of steps. -/
def World.stretch (t : TaskId) : Nat → Option Answer → World → Option (List Move × World)
  | 0, _, _ => none
  | n + 1, answer, w =>
    match w.step (.answering answer) t with
    | some (w', res) =>
      if w'.rests t then some ([⟨w, t, .answering answer, w', res⟩], w')
      else (w'.stretch t n none).map fun p => (⟨w, t, .answering answer, w', res⟩ :: p.1, p.2)
    | none => none

theorem Stretch.of_eq_some {t : TaskId} {n : Nat} {answer : Option Answer} {w w' : World}
    {xs : List Move} (h : w.stretch t n answer = some (xs, w')) : Stretch t w xs w' := by
  induction n generalizing answer w xs with
  | zero => cases h
  | succ n ih =>
    rw [World.stretch] at h
    split at h
    · rename_i hstep
      split at h
      · cases h
        exact .last hstep ‹_›
      · rename_i hgoes
        obtain ⟨⟨ys, w''⟩, hys, heq⟩ := Option.map_eq_some_iff.1 h
        cases heq
        exact .more hstep (Bool.eq_false_iff.2 hgoes) (ih hys)
    · cases h

/-- The cooperative traffic on a router that follows some cues. -/
def Router.enactStretches (r : Router) (cues : List Cue) : List Move × World :=
  cues.foldl (Cue.follow fun t answer => World.stretch t 8 answer) ([], ⟨{ router := r }, []⟩)

/-- Cues for calls of some kind make cooperative traffic of these calls. -/
theorem Cooperative.enact {made : Call → Prop} {r : Router} {cues : List Cue}
    (hslots : r.slots = .const {}) (hconnections : r.connections = [])
    (hcues : ∀ q ∈ cues, ∀ r c, q.call? r = some c → made c) :
    Cooperative made (r.enactStretches cues).1 (r.enactStretches cues).2 :=
  Cue.foldl_follow (P := fun p => Cooperative made p.1 p.2)
    (fun _ _ _ _ _ hp h => hp.stretch (.of_eq_some h))
    (fun _ q hq c hp hc => hp.call (hcues q hq _ c hc) (Cue.begins_of_call? hc))
    (.quiet hslots hconnections)


end MetricBoard
