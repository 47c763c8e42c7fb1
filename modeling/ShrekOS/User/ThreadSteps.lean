/-
The steps of the thread library keep the invariant of the thread pool.

* `createNext_slotted`, `exitNext_slotted`, `joinNext_slotted`: the steps of `thr_create`,
  `thr_exit` and `thr_join`, one case for each place in the call;
* `slotted_of_reach`: **every reachable state is annotated**, and what it says without the
  ghost state: who holds a mutex (`mutex_of_holds`), that a claim is exclusive
  (`claims_inj`) and that a claimed slot is alive and has no tid (`slot_of_claims`).
-/
import ShrekOS.User.ThreadPool

namespace ShrekOS

open Kit

variable {s s' : ThrLib} {g : SlotGhost} {t k : ℕ} {p' : ThrPc} {pc : ℕ → ThrPc} {a : ThrAct}

/-! ### The lock of the pool -/

lemma SamePool.refl (s : ThrLib) : SamePool s s := ⟨rfl, rfl, rfl, rfl⟩

lemma rwlockRead_same (hs : s.rwlockRead = some s') : SamePool s s' := by
  unfold ThrLib.rwlockRead at hs
  split_ifs at hs
  obtain rfl := Option.some.inj hs
  exact ⟨rfl, rfl, rfl, rfl⟩

lemma rwlockWrite_same (hs : s.rwlockWrite = some s') : SamePool s s' := by
  unfold ThrLib.rwlockWrite at hs
  split_ifs at hs
  obtain rfl := Option.some.inj hs
  exact ⟨rfl, rfl, rfl, rfl⟩

lemma rwlockUnlock_same (s : ThrLib) : SamePool s s.rwlockUnlock := by
  unfold ThrLib.rwlockUnlock
  split_ifs <;> exact ⟨rfl, rfl, rfl, rfl⟩

section steps

variable (h : SlotInv s g) (hA : ∀ u, SlotAssert s g u (pc u))

include h hA

/-! ### `thr_create` -/

/-- The thread resurrects a dead slot. -/
lemma create_claim (hpc : pc t = .create (.check k)) (hd : (s.threadPool k).status = .dead) :
    Slotted (s.setThread k { s.threadPool k with joinCv := [], status := .alive })
      (g.claim k (some t)) t (.create (.claimed k (s.threadPool k).stackTop)) pc := by
  have hAt := hA t
  have hm : (s.threadPool k).m = some t := hAt.holds k (by rw [hpc]; rfl)
  have htid := (hAt.settled k (by rw [hpc]; rfl) (by rw [hpc]; exact id)).dead hd
  have hfree : ∀ x, g.claimant k ≠ some x := by
    intro x hx
    have := (h.claimed k x hx).2.1
    rw [hd] at this
    cases this
  have hk := hAt.found k (by rw [hpc]; rfl)
  have hw := setThread_writes s k { s.threadPool k with joinCv := [], status := .alive }
  refine Slotted.write h hA hw hk (.inr hm) (fun u _ hu => absurd hu (hfree u))
    (fun _ _ => ⟨rfl, htid⟩) (fun _ => .of_alive rfl) (.inr rfl) (fun u _ hu _ => hu)
    (fun u _ _ => .inl rfl) ?_
  refine hAt.write hw hk (fun l hl => (Option.some.inj hl).symm)
    (fun _ => ⟨hm, fun _ => .of_alive rfl⟩) (fun l hl => ?_) nofun (fun _ => ⟨?_, fun _ => rfl⟩)
    trivial ?_
  · obtain rfl := Option.some.inj hl
    exact Function.update_self ..
  · rw [hpc]
    exact id
  · have := hAt.exited
    rwa [hpc] at this

/-- The thread gives the slot back that it has resurrected. -/
lemma create_revert (hpc : pc t = .create (.revert k)) :
    Slotted (s.setThread k { s.threadPool k with status := .dead }) (g.claim k none) t
      (.create (.revertAgain k)) pc := by
  have hAt := hA t
  have hm : (s.threadPool k).m = some t := hAt.holds k (by rw [hpc]; rfl)
  have hclaim : g.claimant k = some t := hAt.claims k (by rw [hpc]; rfl)
  obtain ⟨-, -, htid⟩ := h.claimed k t hclaim
  have hk := hAt.found k (by rw [hpc]; rfl)
  have hw := setThread_writes s k { s.threadPool k with status := .dead }
  have hset : s.Settled { s.threadPool k with status := .dead } := ⟨fun _ => htid, nofun⟩
  have hnot : ∀ u : ℕ, (s.threadPool k).kTid ≠ u := by
    intro u
    omega
  refine Slotted.write h hA hw hk (.inr hm) (fun u hu hc => ?_) nofun (fun _ => hset) (.inr rfl)
    (fun u _ hu _ => hu) (fun u _ hu => absurd hu (hnot u)) ?_
  · rw [hclaim] at hc
    exact absurd (Option.some.inj hc).symm hu
  · refine hAt.write hw hk (fun l hl => (Option.some.inj hl).symm)
      (fun _ => ⟨hm, fun _ => hset⟩) nofun nofun (fun _ => ⟨?_, fun hu => absurd hu (hnot t)⟩)
      trivial ?_
    · rw [hpc]
      exact id
    · have := hAt.exited
      rwa [hpc] at this

/-- The thread gives the slot that it has resurrected its child's tid. -/
lemma create_name {d : ℕ} (hpc : pc t = .create (.tidSet k d)) :
    Slotted (s.setThread k { s.threadPool k with kTid := d }) (g.name k d) t
      (.create (.tidUnlock k)) pc := by
  have hAt := hA t
  have hm : (s.threadPool k).m = some t := hAt.holds k (by rw [hpc]; rfl)
  have hclaim : g.claimant k = some t := hAt.claims k (by rw [hpc]; rfl)
  obtain ⟨hk, halive, htid⟩ := h.claimed k t hclaim
  refine Slotted.name h hA ⟨rfl, le_rfl, hk, fun l hl => ⟨hl, (hk.trans_le hl).ne'⟩, rfl, rfl, rfl,
    halive, htid⟩ (by rw [hpc]; rfl) (.inr hm) (fun x hx => ?_)
    (fun l hl => (Option.some.inj hl).symm) (fun _ => hm) rfl rfl (by rw [hpc]; exact id) trivial ?_
  · rw [hclaim] at hx
    exact (Option.some.inj hx).symm
  · have := hAt.exited
    rwa [hpc] at this

/-- **The steps of `thr_create`** keep the pool annotated. -/
theorem createNext_slotted {q : CreatePc} (hpc : pc t = .create q)
    (hs : createNext s t q a = some (s', p')) : ∃ g', Slotted s' g' t p' pc := by
  -- the caller has not called `thr_exit`
  have hex : s.exited t = none := by
    have := (hA t).exited
    rwa [hpc] at this
  cases a with
  | thrCreate | thrExit _ | thrJoin _ => cases q <;> cases hs
  | fail =>
      cases q with
      | page esp =>
          simp only [createNext] at hs
          split_ifs at hs
          obtain ⟨rfl, rfl⟩ := Prod.mk.inj (Option.some.inj hs)
          exact ⟨g, Slotted.quiet h hA hpc (.refl s) (below_idle rfl rfl id) trivial hex⟩
      | fork found esp =>
          cases found with
          | none =>
              obtain ⟨rfl, rfl⟩ := Prod.mk.inj (Option.some.inj hs)
              exact ⟨g, Slotted.quiet h hA hpc (.refl s) (below_idle rfl rfl id) trivial
                hex⟩
          | some k =>
              obtain ⟨rfl, rfl⟩ := Prod.mk.inj (Option.some.inj hs)
              exact ⟨g, Slotted.quiet h hA hpc (.refl s) (below_same rfl rfl id rfl rfl id) trivial
                hex⟩
      | _ => cases hs
  | fork d =>
      cases q with
      | fork found esp =>
          cases found with
          | none =>
              simp only [createNext] at hs
              split_ifs at hs with hd
              obtain ⟨rfl, rfl⟩ := Prod.mk.inj (Option.some.inj hs)
              exact ⟨_, Slotted.fork h hA hd rfl rfl rfl rfl nofun rfl nofun rfl
                (by rw [hpc]; exact False.elim) trivial hex⟩
          | some k =>
              simp only [createNext] at hs
              split_ifs at hs with hd
              obtain ⟨rfl, rfl⟩ := Prod.mk.inj (Option.some.inj hs)
              exact ⟨_, Slotted.fork h hA hd rfl rfl rfl rfl (by rw [hpc]; exact fun _ => id) rfl
                (by rw [hpc]; exact fun _ => id) rfl (by rw [hpc]; exact False.elim) trivial hex⟩
      | _ => cases hs
  | add pending status =>
      cases q with
      | add d esp =>
          obtain ⟨rfl, rfl⟩ := Prod.mk.inj (Option.some.inj hs)
          -- the slot after the last one is there now, alive and with the tid of the child
          obtain ⟨htid, halive, hm⟩ := h.beyond s.size le_rfl
          refine ⟨_, Slotted.name h hA (d := d) ⟨rfl, Nat.le_succ _, Nat.lt_succ_self _,
            fun l hl => ⟨?_, ?_⟩, rfl, rfl, rfl, rfl, htid⟩ (by rw [hpc]; rfl) (.inl hm) ?_ nofun
            nofun rfl rfl (by rw [hpc]; exact id) trivial hex⟩
          · exact (Nat.le_succ _).trans hl
          · exact (Nat.lt_of_succ_le hl).ne'
          -- nobody claims a slot beyond the pool
          · exact fun x hx => absurd (h.claimed _ x hx).1 (lt_irrefl _)
      | _ => cases hs
  | run =>
      cases q with
      | lock =>
          simp only [createNext, Option.map_eq_some_iff] at hs
          obtain ⟨s₁, h₁, heq⟩ := hs
          obtain ⟨rfl, rfl⟩ := Prod.mk.inj heq
          exact ⟨g, Slotted.quiet h hA hpc (rwlockRead_same h₁) (below_idle rfl rfl id)
            trivial hex⟩
      | scan k =>
          simp only [createNext] at hs
          split_ifs at hs with hk hd <;> obtain ⟨rfl, rfl⟩ := Prod.mk.inj (Option.some.inj hs)
          -- a dead slot was seen; whether it still is dead is checked under its mutex
          · exact ⟨g, Slotted.quiet h hA hpc (.refl s) (below_found hk rfl rfl rfl rfl id) trivial
              hex⟩
          all_goals
            exact ⟨g, Slotted.quiet h hA hpc (.refl s) (below_idle rfl rfl id) trivial hex⟩
      | take k =>
          simp only [createNext, Option.map_eq_some_iff] at hs
          obtain ⟨s₁, h₁, heq⟩ := hs
          obtain ⟨rfl, rfl⟩ := Prod.mk.inj heq
          exact ⟨g, Slotted.lock h hA h₁ (by rw [hpc]; rfl) (by simp) nofun nofun
            (by rw [hpc]; exact False.elim) trivial hex⟩
      | check k =>
          simp only [createNext] at hs
          split_ifs at hs with hd
          · obtain ⟨rfl, rfl⟩ := Prod.mk.inj (Option.some.inj hs)
            exact ⟨_, create_claim h hA hpc hd⟩
          · obtain ⟨rfl, rfl⟩ := Prod.mk.inj (Option.some.inj hs)
            exact ⟨g, Slotted.quiet h hA hpc (.refl s) (below_same rfl rfl id rfl rfl id) trivial
              hex⟩
      | giveUp k =>
          obtain ⟨rfl, rfl⟩ := Prod.mk.inj (Option.some.inj hs)
          exact ⟨g, Slotted.held h hA (setThread_writes s k _) (by rw [hpc]; rfl)
            (by rw [hpc]; exact id) rfl rfl rfl nofun nofun nofun nofun
            (by rw [hpc]; exact False.elim) trivial hex⟩
      | claimed k esp =>
          obtain ⟨rfl, rfl⟩ := Prod.mk.inj (Option.some.inj hs)
          exact ⟨g, Slotted.held h hA (setThread_writes s k _) (by rw [hpc]; rfl)
            (by rw [hpc]; exact id) rfl rfl rfl (by simp) nofun (by rw [hpc]; exact fun _ => id)
            nofun (by rw [hpc]; exact False.elim) trivial hex⟩
      | size =>
          obtain ⟨rfl, rfl⟩ := Prod.mk.inj (Option.some.inj hs)
          exact ⟨g, Slotted.quiet h hA hpc (.refl s) (below_idle rfl rfl id) trivial hex⟩
      | release found esp =>
          cases found <;> obtain ⟨rfl, rfl⟩ := Prod.mk.inj (Option.some.inj hs)
          all_goals
            exact ⟨g, Slotted.quiet h hA hpc (rwlockUnlock_same s)
              (below_same rfl rfl id rfl rfl id) trivial hex⟩
      | page esp =>
          simp only [createNext] at hs
          split_ifs at hs <;> obtain ⟨rfl, rfl⟩ := Prod.mk.inj (Option.some.inj hs)
          all_goals
            exact ⟨g, Slotted.quiet h hA hpc (.refl s) (below_idle rfl rfl id) trivial
              hex⟩
      | bottom esp =>
          obtain ⟨rfl, rfl⟩ := Prod.mk.inj (Option.some.inj hs)
          exact ⟨g, Slotted.quiet h hA hpc ⟨rfl, rfl, rfl, rfl⟩ (below_idle rfl rfl id)
            trivial hex⟩
      | addLock d esp =>
          simp only [createNext, Option.map_eq_some_iff] at hs
          obtain ⟨s₁, h₁, heq⟩ := hs
          obtain ⟨rfl, rfl⟩ := Prod.mk.inj heq
          exact ⟨g, Slotted.quiet h hA hpc (rwlockWrite_same h₁) (below_same rfl rfl id rfl rfl id)
            trivial hex⟩
      | addUnlock =>
          obtain ⟨rfl, rfl⟩ := Prod.mk.inj (Option.some.inj hs)
          exact ⟨g, Slotted.quiet h hA hpc (rwlockUnlock_same s) (below_idle rfl rfl id)
            trivial hex⟩
      | tidTake k d =>
          simp only [createNext, Option.map_eq_some_iff] at hs
          obtain ⟨s₁, h₁, heq⟩ := hs
          obtain ⟨rfl, rfl⟩ := Prod.mk.inj heq
          exact ⟨g, Slotted.lock h hA h₁ (by rw [hpc]; rfl) (by simp)
            (by rw [hpc]; exact fun _ => id) (by rw [hpc]; exact fun _ => id)
            (by rw [hpc]; exact False.elim) trivial hex⟩
      | tidSet k d =>
          obtain ⟨rfl, rfl⟩ := Prod.mk.inj (Option.some.inj hs)
          exact ⟨_, create_name h hA hpc⟩
      | tidUnlock k =>
          obtain ⟨rfl, rfl⟩ := Prod.mk.inj (Option.some.inj hs)
          exact ⟨g, Slotted.held h hA (setThread_writes s k _) (by rw [hpc]; rfl)
            (by rw [hpc]; exact id) rfl rfl rfl nofun nofun nofun nofun
            (by rw [hpc]; exact False.elim) trivial hex⟩
      | revertTake k =>
          simp only [createNext, Option.map_eq_some_iff] at hs
          obtain ⟨s₁, h₁, heq⟩ := hs
          obtain ⟨rfl, rfl⟩ := Prod.mk.inj heq
          exact ⟨g, Slotted.lock h hA h₁ (by rw [hpc]; rfl) (by simp)
            (by rw [hpc]; exact fun _ => id) nofun (by rw [hpc]; exact False.elim) trivial hex⟩
      | revert k =>
          obtain ⟨rfl, rfl⟩ := Prod.mk.inj (Option.some.inj hs)
          exact ⟨_, create_revert h hA hpc⟩
      | revertAgain k =>
          -- the thread waits for the mutex that it holds
          simp only [createNext, Option.map_eq_some_iff] at hs
          obtain ⟨s₁, h₁, -⟩ := hs
          have hm := (hA t).holds k (by rw [hpc]; rfl)
          rw [(mutexLock_eq_some h₁).1] at hm
          cases hm
      | fork _ _ | add _ _ => cases hs

/-! ### `thr_exit` -/

/-- The thread becomes a zombie. -/
lemma exit_mark {st : ℤ} (hpc : pc t = .exit st (.mark k)) :
    Slotted (s.setThread k { s.threadPool k with status := .zombie }) g t
      (.exit st (.save k)) pc := by
  have hAt := hA t
  have hm : (s.threadPool k).m = some t := hAt.holds k (by rw [hpc]; rfl)
  have htid : (s.threadPool k).kTid = t := by
    have := hAt.knows
    rwa [hpc] at this
  have hk := hAt.found k (by rw [hpc]; rfl)
  have hw := setThread_writes s k { s.threadPool k with status := .zombie }
  have hnot : ∀ x, g.claimant k ≠ some x := by
    intro x hx
    have := (h.claimed k x hx).2.2
    omega
  rw [← g.claim_self k]
  refine Slotted.write h hA hw hk (.inr hm) (fun _ _ hu => hu) (fun x hx => absurd hx (hnot x))
    (fun hn => ?_) (.inr rfl) (fun u _ hu _ => hu) (fun u hu hcu => ?_) ?_
  · rw [hm] at hn
    cases hn
  · change (s.threadPool k).kTid = u at hcu
    omega
  · refine hAt.write hw hk (fun l hl => (Option.some.inj hl).symm)
      (fun _ => ⟨hm, fun hn => absurd trivial hn⟩) nofun nofun (fun hp => absurd trivial hp) ?_ ?_
    · simp only [ThrPc.Knows, hw.self, and_true]
      exact htid
    · have := hAt.exited
      rwa [hpc] at this

/-- The thread leaves its status. -/
lemma exit_save {st : ℤ} (hpc : pc t = .exit st (.save k)) :
    Slotted (s.setThread k { s.threadPool k with exitStatus := st }) g t
      (.exit st (.signal k)) pc := by
  have hAt := hA t
  have hm : (s.threadPool k).m = some t := hAt.holds k (by rw [hpc]; rfl)
  obtain ⟨htid, hz⟩ : (s.threadPool k).kTid = t ∧ (s.threadPool k).status = .zombie := by
    have := hAt.knows
    rwa [hpc] at this
  have hex : s.exited t = some st := by
    have := hAt.exited
    rwa [hpc] at this
  have hk := hAt.found k (by rw [hpc]; rfl)
  have hw := setThread_writes s k { s.threadPool k with exitStatus := st }
  have hset : s.Settled { s.threadPool k with exitStatus := st } := by
    refine ⟨fun hd => ?_, fun _ => ⟨t, htid, hex⟩⟩
    change (s.threadPool k).status = .dead at hd
    rw [hz] at hd
    cases hd
  have hnot : ∀ x, g.claimant k ≠ some x := by
    intro x hx
    have := (h.claimed k x hx).2.2
    omega
  rw [← g.claim_self k]
  refine Slotted.write h hA hw hk (.inr hm) (fun _ _ hu => hu) (fun x hx => absurd hx (hnot x))
    (fun _ => hset) (.inr rfl) (fun u _ hu _ => hu) (fun u _ _ => ?_) ?_
  · rw [hz]
    exact .inr nofun
  · exact hAt.write hw hk (fun l hl => (Option.some.inj hl).symm)
      (fun _ => ⟨hm, fun _ => hset⟩) nofun nofun (fun hp => absurd trivial hp) trivial hex

/-- **The steps of `thr_exit`** keep the pool annotated. -/
theorem exitNext_slotted {q : ExitPc} {st : ℤ} (hpc : pc t = .exit st q)
    (hs : exitNext s t st q a = some (s', p')) : ∃ g', Slotted s' g' t p' pc := by
  -- what the caller is to leave behind, as it called `thr_exit`
  have hex : s.exited t = some st := by
    have := (hA t).exited
    rwa [hpc] at this
  cases a with
  | thrCreate | thrExit _ | thrJoin _ | fail | fork _ | add _ _ => cases q <;> cases hs
  | run =>
      cases q with
      | lock =>
          simp only [exitNext, Option.map_eq_some_iff] at hs
          obtain ⟨s₁, h₁, heq⟩ := hs
          obtain ⟨rfl, rfl⟩ := Prod.mk.inj heq
          exact ⟨g, Slotted.quiet h hA hpc (rwlockRead_same h₁) (below_idle rfl rfl id)
            trivial hex⟩
      | scan k =>
          simp only [exitNext] at hs
          -- past the end, the slot of the caller, or another one
          split_ifs at hs with hk htid <;> obtain ⟨rfl, rfl⟩ := Prod.mk.inj (Option.some.inj hs)
          · exact ⟨g, Slotted.quiet h hA hpc (.refl s) (below_found hk rfl rfl rfl rfl id) htid
              hex⟩
          all_goals
            exact ⟨g, Slotted.quiet h hA hpc (.refl s) (below_idle rfl rfl id) trivial
              hex⟩
      | retry =>
          obtain ⟨rfl, rfl⟩ := Prod.mk.inj (Option.some.inj hs)
          exact ⟨g, Slotted.quiet h hA hpc (rwlockUnlock_same s) (below_idle rfl rfl id)
            trivial hex⟩
      | take k =>
          simp only [exitNext, Option.map_eq_some_iff] at hs
          obtain ⟨s₁, h₁, heq⟩ := hs
          obtain ⟨rfl, rfl⟩ := Prod.mk.inj heq
          -- the slot was found by the scan, and the mutex on it is taken
          have hknows := (hA t).knows
          rw [hpc] at hknows
          exact ⟨g, Slotted.lock h hA h₁ (by rw [hpc]; rfl) (by simp) nofun nofun
            (by rw [hpc]; exact False.elim) hknows hex⟩
      | mark k =>
          obtain ⟨rfl, rfl⟩ := Prod.mk.inj (Option.some.inj hs)
          exact ⟨g, exit_mark h hA hpc⟩
      | save k =>
          obtain ⟨rfl, rfl⟩ := Prod.mk.inj (Option.some.inj hs)
          exact ⟨g, exit_save h hA hpc⟩
      | signal k =>
          simp only [exitNext] at hs
          -- nobody waits on the condition variable, or the first of them is woken
          split at hs <;> obtain ⟨rfl, rfl⟩ := Prod.mk.inj (Option.some.inj hs)
          · exact ⟨g, Slotted.quiet h hA hpc (.refl s) (below_same rfl rfl id rfl rfl id) trivial
              hex⟩
          · have hm := (hA t).holds k (by rw [hpc]; rfl)
            exact ⟨g, Slotted.held h hA (k := k) ⟨rfl, rfl, rfl, rfl⟩ (by rw [hpc]; rfl)
              (by rw [hpc]; exact id) rfl rfl rfl (by simp) (fun _ => hm) nofun nofun
              (fun _ => trivial) trivial hex⟩
      | wake k w =>
          obtain ⟨rfl, rfl⟩ := Prod.mk.inj (Option.some.inj hs)
          exact ⟨g, Slotted.quiet h hA hpc ⟨rfl, rfl, rfl, rfl⟩ (below_same rfl rfl id rfl rfl id)
            trivial hex⟩
      | unlock k =>
          obtain ⟨rfl, rfl⟩ := Prod.mk.inj (Option.some.inj hs)
          -- the slot is as the exit leaves it, and its mutex is free
          exact ⟨g, Slotted.held h hA (setThread_writes s k _) (by rw [hpc]; rfl)
            (by rw [hpc]; exact id) rfl rfl rfl nofun nofun nofun nofun (fun _ => trivial) trivial
            hex⟩
      | release =>
          obtain ⟨rfl, rfl⟩ := Prod.mk.inj (Option.some.inj hs)
          exact ⟨g, Slotted.quiet h hA hpc (rwlockUnlock_same s) (below_idle rfl rfl id)
            trivial hex⟩
      | vanish =>
          obtain ⟨rfl, rfl⟩ := Prod.mk.inj (Option.some.inj hs)
          exact ⟨g, Slotted.quiet h hA hpc (.refl s) (below_idle rfl rfl id) trivial
            trivial⟩

/-! ### `thr_join` -/

/-- The thread reaps the slot: its status. -/
lemma join_reap {tid st : ℤ} (hpc : pc t = .join tid (.reap k st)) :
    Slotted (s.setThread k { s.threadPool k with status := .dead }) g t
      (.join tid (.unname k st)) pc := by
  have hAt := hA t
  have hm : (s.threadPool k).m = some t := hAt.holds k (by rw [hpc]; rfl)
  have hne : (s.threadPool k).status ≠ .alive := by
    have := hAt.knows
    rwa [hpc] at this
  have hfresh := hAt.fresh (by rw [hpc]; exact id) k
  have hk := hAt.found k (by rw [hpc]; rfl)
  have hw := setThread_writes s k { s.threadPool k with status := .dead }
  rw [← g.claim_self k]
  refine Slotted.write h hA hw hk (.inr hm) (fun _ _ hu => hu)
    (fun x hx => absurd (h.claimed k x hx).2.1 hne) (fun hn => ?_) (.inr rfl)
    (fun u _ hu _ => hu) (fun _ _ _ => .inr hne) ?_
  · rw [hm] at hn
    cases hn
  · refine hAt.write hw hk (fun l hl => (Option.some.inj hl).symm)
      (fun _ => ⟨hm, fun hn => absurd trivial hn⟩) nofun nofun
      (fun _ => ⟨?_, fun ht => absurd (hfresh ht) hne⟩) ?_ ?_
    · rw [hpc]
      exact id
    · simp only [ThrPc.Knows, hw.self]
    · have := hAt.exited
      rwa [hpc] at this

/-- The thread reaps the slot: its tid. -/
lemma join_unname {tid st : ℤ} (hpc : pc t = .join tid (.unname k st)) :
    Slotted (s.setThread k { s.threadPool k with kTid := -1 }) g t
      (.join tid (.unlock k st)) pc := by
  have hAt := hA t
  have hm : (s.threadPool k).m = some t := hAt.holds k (by rw [hpc]; rfl)
  have hd : (s.threadPool k).status = .dead := by
    have := hAt.knows
    rwa [hpc] at this
  have hk := hAt.found k (by rw [hpc]; rfl)
  have hw := setThread_writes s k { s.threadPool k with kTid := -1 }
  have hset : s.Settled { s.threadPool k with kTid := -1 } := by
    refine ⟨fun _ => rfl, fun hz => ?_⟩
    change (s.threadPool k).status = .zombie at hz
    rw [hd] at hz
    cases hz
  rw [← g.claim_self k]
  refine Slotted.write h hA hw hk (.inr hm) (fun _ _ hu => hu) (fun x hx => ?_) (fun _ => hset)
    (.inl rfl) (fun u _ _ halive => ?_) (fun u _ hu => ?_) ?_
  · have := (h.claimed k x hx).2.1
    rw [hd] at this
    cases this
  · rw [hd] at halive
    cases halive
  · change (-1 : ℤ) = u at hu
    omega
  · refine hAt.write hw hk (fun l hl => (Option.some.inj hl).symm)
      (fun _ => ⟨hm, fun _ => hset⟩) nofun nofun (fun _ => ⟨?_, fun ht => ?_⟩) trivial ?_
    · rw [hpc]
      exact id
    · change (-1 : ℤ) = t at ht
      omega
    · have := hAt.exited
      rwa [hpc] at this

/-- **The steps of `thr_join`** keep the pool annotated. -/
theorem joinNext_slotted {q : JoinPc} {tid : ℤ} (hpc : pc t = .join tid q)
    (hs : joinNext s t tid q a = some (s', p')) : ∃ g', Slotted s' g' t p' pc := by
  have hex : s.exited t = none := by
    have := (hA t).exited
    rwa [hpc] at this
  cases a with
  | thrCreate | thrExit _ | thrJoin _ | fail | fork _ | add _ _ => cases q <;> cases hs
  | run =>
      cases q with
      | lock =>
          simp only [joinNext, Option.map_eq_some_iff] at hs
          obtain ⟨s₁, h₁, heq⟩ := hs
          obtain ⟨rfl, rfl⟩ := Prod.mk.inj heq
          exact ⟨g, Slotted.quiet h hA hpc (rwlockRead_same h₁) (below_idle rfl rfl id)
            trivial hex⟩
      | scan k =>
          simp only [joinNext] at hs
          split_ifs at hs with hk htid <;> obtain ⟨rfl, rfl⟩ := Prod.mk.inj (Option.some.inj hs)
          -- the slot that was found is below the size of the pool
          · exact ⟨g, Slotted.quiet h hA hpc (.refl s) (below_found hk rfl rfl rfl rfl id) trivial
              hex⟩
          all_goals
            exact ⟨g, Slotted.quiet h hA hpc (.refl s) (below_idle rfl rfl id) trivial hex⟩
      | giveUp =>
          obtain ⟨rfl, rfl⟩ := Prod.mk.inj (Option.some.inj hs)
          exact ⟨g, Slotted.quiet h hA hpc (rwlockUnlock_same s) (below_idle rfl rfl id)
            trivial hex⟩
      | release k =>
          obtain ⟨rfl, rfl⟩ := Prod.mk.inj (Option.some.inj hs)
          exact ⟨g, Slotted.quiet h hA hpc (rwlockUnlock_same s) (below_same rfl rfl id rfl rfl id)
            trivial hex⟩
      | take k =>
          simp only [joinNext, Option.map_eq_some_iff] at hs
          obtain ⟨s₁, h₁, heq⟩ := hs
          obtain ⟨rfl, rfl⟩ := Prod.mk.inj heq
          exact ⟨g, Slotted.lock h hA h₁ (by rw [hpc]; rfl) (by simp) nofun nofun
            (by rw [hpc]; exact False.elim) trivial hex⟩
      | relock k =>
          simp only [joinNext, Option.map_eq_some_iff] at hs
          obtain ⟨s₁, h₁, heq⟩ := hs
          obtain ⟨rfl, rfl⟩ := Prod.mk.inj heq
          exact ⟨g, Slotted.lock h hA h₁ (by rw [hpc]; rfl) (by simp) nofun nofun
            (by rw [hpc]; exact False.elim) trivial hex⟩
      | enter k =>
          simp only [joinNext] at hs
          split_ifs at hs <;> obtain ⟨rfl, rfl⟩ := Prod.mk.inj (Option.some.inj hs)
          all_goals
            exact ⟨g, Slotted.quiet h hA hpc (.refl s) (below_same rfl rfl id rfl rfl id) trivial
              hex⟩
      | refuse k =>
          obtain ⟨rfl, rfl⟩ := Prod.mk.inj (Option.some.inj hs)
          exact ⟨g, Slotted.held h hA (setThread_writes s k _) (by rw [hpc]; rfl)
            (by rw [hpc]; exact id) rfl rfl rfl nofun nofun nofun nofun
            (by rw [hpc]; exact False.elim) trivial hex⟩
      | test k =>
          simp only [joinNext] at hs
          split_ifs at hs with halive hpend <;>
            obtain ⟨rfl, rfl⟩ := Prod.mk.inj (Option.some.inj hs)
          · exact ⟨g, Slotted.quiet h hA hpc (.refl s) (below_same rfl rfl id rfl rfl id) trivial
              hex⟩
          -- `cond_wait` gives up the mutex
          · exact ⟨g, Slotted.held h hA (k := k) ⟨rfl, rfl, rfl, rfl⟩ (by rw [hpc]; rfl)
              (by rw [hpc]; exact id) rfl rfl rfl (by simp) nofun nofun nofun
              (by rw [hpc]; exact False.elim) trivial hex⟩
          · exact ⟨g, Slotted.quiet h hA hpc (.refl s) (below_same rfl rfl id rfl rfl id) halive
              hex⟩
      | wait k q =>
          obtain ⟨r, w, rfl, rfl | ⟨q', rfl⟩⟩ := sleepNext_writes hs
          all_goals
            exact ⟨g, Slotted.quiet h hA hpc ⟨rfl, rfl, rfl, rfl⟩
              (below_same rfl rfl id rfl rfl id) trivial hex⟩
      | save k =>
          obtain ⟨rfl, rfl⟩ := Prod.mk.inj (Option.some.inj hs)
          -- the thread has seen the slot not alive while it holds the mutex
          have hknows := (hA t).knows
          rw [hpc] at hknows
          exact ⟨g, Slotted.quiet h hA hpc (.refl s) (below_same rfl rfl id rfl rfl id) hknows hex⟩
      | clear k st =>
          obtain ⟨rfl, rfl⟩ := Prod.mk.inj (Option.some.inj hs)
          have hknows := (hA t).knows
          rw [hpc] at hknows
          have hm := (hA t).holds k (by rw [hpc]; rfl)
          exact ⟨g, Slotted.held h hA (setThread_writes s k _) (by rw [hpc]; rfl)
            (by rw [hpc]; exact id) rfl rfl rfl (by simp) (fun _ => hm) nofun nofun
            (by rw [hpc]; exact False.elim) hknows hex⟩
      | reap k st =>
          obtain ⟨rfl, rfl⟩ := Prod.mk.inj (Option.some.inj hs)
          exact ⟨g, join_reap h hA hpc⟩
      | unname k st =>
          obtain ⟨rfl, rfl⟩ := Prod.mk.inj (Option.some.inj hs)
          exact ⟨g, join_unname h hA hpc⟩
      | unlock k st =>
          obtain ⟨rfl, rfl⟩ := Prod.mk.inj (Option.some.inj hs)
          exact ⟨g, Slotted.held h hA (k := k) ⟨rfl, rfl, rfl, rfl⟩ (by rw [hpc]; rfl)
            (by rw [hpc]; exact id) rfl rfl rfl nofun nofun nofun nofun
            (by rw [hpc]; exact False.elim) trivial hex⟩

/-- **The steps of a thread** keep the pool annotated. -/
theorem thrNext_slotted (hs : thrNext s t (pc t) a = some (s', p')) :
    ∃ g', Slotted s' g' t p' pc := by
  obtain ⟨-, hnext⟩ := thrNext_eq_some hs
  have hexited := (hA t).exited
  generalize hpc : pc t = p at hnext hexited
  cases hnext with
  | thrCreate =>
      exact ⟨g, Slotted.quiet h hA hpc (.refl s) (below_idle rfl rfl id) trivial hexited⟩
  | thrExit status => exact ⟨g, Slotted.exit h hA hpc⟩
  | thrJoin kTid =>
      exact ⟨g, Slotted.quiet h hA hpc (.refl s) (below_idle rfl rfl id) trivial hexited⟩
  | create hs => exact createNext_slotted h hA hpc hs
  | exit hs => exact exitNext_slotted h hA hpc hs
  | join hs => exact joinNext_slotted h hA hpc hs

end steps

/-! ### Runs -/

variable {G : ThrLib × (ℕ → ThrPc) → ℕ × ThrAct → Prop} {c : ThrLib × (ℕ → ThrPc)} {u : ℕ}

/-- When `thr_init` returns, no slot is claimed and the caller has its slot. -/
lemma slotted_init (h : thrLib.init c) : Threads.Annotated SlotInv SlotAssert c := by
  obtain ⟨⟨main, h⟩, hpc⟩ := h
  have hslot : ∀ k, (c.1.threadPool k).status = .alive ∧ (c.1.threadPool k).m = none := by
    intro k
    rcases Nat.eq_zero_or_pos k with rfl | hk
    · exact ⟨h.status, h.mutex⟩
    · exact (h.beyond k hk).2
  have htid : ∀ k (d : ℕ), (c.1.threadPool k).kTid = d → k = 0 ∧ d = main := by
    intro k d hd
    rcases Nat.eq_zero_or_pos k with rfl | hk
    · rw [h.kTid] at hd
      exact ⟨rfl, by omega⟩
    · rw [(h.beyond k hk).1] at hd
      omega
  refine ⟨⟨fun _ => none, fun _ => none, fun d => d = main⟩, ⟨nofun,
    fun k _ => .of_alive (hslot k).1, fun k d hd => (htid k d hd).2, fun d hd => ?_,
    fun k l d hk hl => ?_, fun k hk => ?_⟩, fun t => ?_⟩
  · rw [h.tids, hd]
    exact .head _
  · rw [(htid k d hk).1, (htid l d hl).1]
  · rw [h.size] at hk
    obtain ⟨hm1, hst, hm⟩ := h.beyond k hk
    exact ⟨hm1, hst, hm⟩
  · rw [hpc t]
    exact ⟨nofun, nofun, nofun, nofun, nofun, fun _ k _ => (hslot k).1, trivial, h.exited t⟩

/-- **Every reachable state is annotated.** -/
theorem slotted_of_reach (h : thrLib.machine.Reach G c) :
    Threads.Annotated SlotInv SlotAssert c := by
  refine Threads.annotated_of_reach (fun _ => slotted_init) ?_ h
  exact fun s pc g t a s' p' hI hA _ hs => thrNext_slotted hI hA hs

/-- A thread in a critical section holds the mutex. -/
lemma mutex_of_holds (h : Threads.Annotated SlotInv SlotAssert c) (ht : (c.2 t).holds = some k) :
    (c.1.threadPool k).m = some t := by
  obtain ⟨g, -, hA⟩ := h
  exact (hA t).holds k ht

/-- The slots that a thread has found are in the pool. -/
lemma found_lt (h : Threads.Annotated SlotInv SlotAssert c) (ht : (c.2 t).found = some k) :
    k < c.1.size := by
  obtain ⟨g, -, hA⟩ := h
  exact (hA t).found k ht

/-- **A claim is exclusive.** -/
lemma claims_inj (h : Threads.Annotated SlotInv SlotAssert c) (ht : (c.2 t).claims = some k)
    (hu : (c.2 u).claims = some k) : t = u := by
  obtain ⟨g, -, hA⟩ := h
  have h1 := (hA t).claims k ht
  rw [(hA u).claims k hu] at h1
  exact (Option.some.inj h1).symm

/-- A claimed slot is alive and has no tid. -/
lemma slot_of_claims (h : Threads.Annotated SlotInv SlotAssert c)
    (ht : (c.2 t).claims = some k) :
    (c.1.threadPool k).status = .alive ∧ (c.1.threadPool k).kTid = -1 := by
  obtain ⟨g, hI, hA⟩ := h
  exact (hI.claimed k t ((hA t).claims k ht)).2

end ShrekOS
