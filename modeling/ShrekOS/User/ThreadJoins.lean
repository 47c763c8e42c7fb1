/-
What `thr_join` returns: the status of the thread that was asked for, once.

* `JoinedRight`: each join that has returned 0 has got the status that its thread passed to
  `thr_exit`, and no two were for the same thread;
* `Matched`: a join that locks the slot that it has found finds its thread's tid there, or a
  dead slot, and one that finds a zombie finds nobody who waits for it;
* `JoinInv`, `JoinAssert`: who waits on a slot, and who has reaped a thread;
* `joinedRight_of_matched`: **the joins are right in every careful, matched run**, and
  `not_joinedRight_of_recycled`: a status of another thread, and one that is returned twice.
-/
import ShrekOS.User.ThreadStacks

namespace ShrekOS

open Kit

/-- **The joins are right**: each has returned what its thread exited with, and no other one
was for that thread. -/
structure JoinedRight (s : ThrLib) : Prop where
  status : ∀ r ∈ s.joined, ∃ t : ℕ, r.1 = t ∧ s.exited t = some r.2
  once : (s.joined.map Prod.fst).Nodup

namespace ThrPc

/-- The thread waits on the slot, or has been signalled and has not got the mutex yet. -/
def Awaits (k : ℕ) : ThrPc → Prop
  | .join _ (.wait l _) | .join _ (.relock l) => l = k
  | _ => False

instance (k : ℕ) (p : ThrPc) : Decidable (p.Awaits k) := by
  unfold Awaits
  split <;> infer_instance

end ThrPc

/-- **The condition**: the slot that a join has found still has its tid, or is dead, when the
join locks it; and nobody else waits on it when the join finds a zombie in it. -/
def Matched (c : ThrLib × (ℕ → ThrPc)) (a : ℕ × ThrAct) : Prop :=
  match c.2 a.1, a.2 with
  | .join tid (.take k), .run =>
      (c.1.threadPool k).status = .dead ∨ 0 ≤ tid ∧ (c.1.threadPool k).kTid = tid
  | .join _ (.enter k), .run =>
      (c.1.threadPool k).status = .zombie → ∀ u ∈ c.1.tids, ¬ (c.2 u).Awaits k
  | _, _ => True

instance (c : ThrLib × (ℕ → ThrPc)) (a : ℕ × ThrAct) : Decidable (Matched c a) := by
  obtain ⟨t, x⟩ := a
  unfold Matched
  generalize c.2 t = p
  cases p with
  | join tid q => cases q <;> cases x <;> (dsimp only; infer_instance)
  | _ => dsimp only; infer_instance

/-- Which thread waits on a slot, and which thread has reaped a thread and not returned. -/
structure JoinGhost where
  waiter : ℕ → Option ℕ
  taker : ℕ → Option ℕ

/-- **The invariant of the joins.** -/
structure JoinInv (s : ThrLib) (g : JoinGhost) : Prop where
  waiting : ∀ k w, g.waiter k = some w → (s.threadPool k).pendingJoin = true ∧
    (s.threadPool k).status ≠ .dead ∧ 0 ≤ (s.threadPool k).kTid
  joined : ∀ r ∈ s.joined, ∃ t : ℕ, r.1 = t ∧ s.exited t = some r.2 ∧ t ∈ s.tids ∧
    ∀ k, (s.threadPool k).kTid ≠ t
  once : (s.joined.map Prod.fst).Nodup
  taken : ∀ (t : ℕ) w, g.taker t = some w → t ∈ s.tids ∧ (∀ k, (s.threadPool k).kTid ≠ t) ∧
    ∀ r ∈ s.joined, r.1 ≠ t

namespace ThrPc

/-- The places at which a thread may be the one that waits on the slot. -/
def Minds (k : ℕ) : ThrPc → Prop
  | .join _ (.wait l _) | .join _ (.relock l) | .join _ (.test l) | .join _ (.save l)
  | .join _ (.clear l _) => l = k
  | _ => False

/-- What a join knows of the thread that it is for. -/
def Joins (s : ThrLib) (g : JoinGhost) (t : ℕ) : ThrPc → Prop
  | .join tid (.enter k) =>
      (s.threadPool k).status = .dead ∨ 0 ≤ tid ∧ (s.threadPool k).kTid = tid
  | .join tid (.wait k _) | .join tid (.relock k) =>
      g.waiter k = some t ∧ (s.threadPool k).kTid = tid
  | .join tid (.test k) =>
      (s.threadPool k).status ≠ .dead ∧ 0 ≤ tid ∧ (s.threadPool k).kTid = tid ∧
        ((s.threadPool k).status = .zombie → g.waiter k = none ∨ g.waiter k = some t)
  | .join tid (.save k) =>
      (s.threadPool k).status ≠ .dead ∧ (s.threadPool k).kTid = tid ∧
        (g.waiter k = none ∨ g.waiter k = some t)
  | .join tid (.clear k st) =>
      (s.threadPool k).kTid = tid ∧ (g.waiter k = none ∨ g.waiter k = some t) ∧
        ∃ n : ℕ, tid = n ∧ s.exited n = some st
  | .join tid (.reap k st) | .join tid (.unname k st) =>
      (s.threadPool k).kTid = tid ∧ g.waiter k = none ∧ ∃ n : ℕ, tid = n ∧ s.exited n = some st
  | .join tid (.unlock _ st) =>
      ∃ n : ℕ, tid = n ∧ s.exited n = some st ∧ g.taker n = some t
  | _ => True

end ThrPc

/-- **The assertion of a thread about its join.** -/
structure JoinAssert (s : ThrLib) (g : JoinGhost) (t : ℕ) (p : ThrPc) : Prop where
  inside : p ≠ .user → t ∈ s.tids
  child : ∀ d, p.child = some d → g.taker d = none ∧ ∀ r ∈ s.joined, r.1 ≠ (d : ℤ)
  waiter : ∀ k, g.waiter k = some t → p.Minds k
  joins : p.Joins s g t

variable {s s' : ThrLib} {g g' : JoinGhost} {t u k : ℕ} {p p' : ThrPc} {pc : ℕ → ThrPc}
  {a : ThrAct} {c : ThrLib × (ℕ → ThrPc)}

theorem joinedRight_of_annotated (h : Threads.Annotated JoinInv JoinAssert c) :
    JoinedRight c.1 := by
  obtain ⟨g, hI, -⟩ := h
  refine ⟨fun r hr => ?_, hI.once⟩
  obtain ⟨t, ht, hex, -⟩ := hI.joined r hr
  exact ⟨t, ht, hex⟩

/-! ### What the others do -/

/-- What a thread may expect for its join from the steps of the others. -/
structure JoinRely (s : ThrLib) (g : JoinGhost) (u : ℕ) (s' : ThrLib) (g' : JoinGhost) :
    Prop where
  tids : ∀ t ∈ s.tids, t ∈ s'.tids
  held : ∀ k, (s.threadPool k).m = some u →
    s'.threadPool k = s.threadPool k ∧ g'.waiter k = g.waiter k
  waiter : ∀ k, g'.waiter k = some u ↔ g.waiter k = some u
  waits : ∀ k, g.waiter k = some u → (s'.threadPool k).kTid = (s.threadPool k).kTid
  exited : ∀ t, s.exited t ≠ none → s'.exited t = s.exited t
  taker : ∀ t, g.taker t = some u → g'.taker t = some u

/-- **The assertions are stable** under the steps of the others. -/
lemma JoinAssert.stable (h : JoinAssert s g u p) (hr : JoinRely s g u s' g')
    (hholds : ∀ k, p.holds = some k → (s.threadPool k).m = some u)
    (hchild : ∀ d, p.child = some d → g'.taker d = none ∧ ∀ r ∈ s'.joined, r.1 ≠ (d : ℤ)) :
    JoinAssert s' g' u p := by
  refine ⟨fun hp => hr.tids u (h.inside hp), hchild, fun k hk => h.waiter k ((hr.waiter k).mp hk),
    ?_⟩
  have hj := h.joins
  have hex : ∀ (n : ℕ) st, s.exited n = some st → s'.exited n = some st := by
    intro n st hn
    rw [hr.exited n (by rw [hn]; nofun), hn]
  cases p with
  | user | create _ | exit _ _ | vanished => trivial
  | join tid q =>
      cases q with
      | lock | scan _ | giveUp | release _ | take _ | refuse _ => trivial
      | wait k _ | relock k => exact ⟨(hr.waiter k).mpr hj.1, (hr.waits k hj.1).trans hj.2⟩
      | enter k | test k | save k =>
          obtain ⟨hpool, hw⟩ := hr.held k (hholds k rfl)
          simp only [ThrPc.Joins, hpool, hw] at hj ⊢
          exact hj
      | clear k st =>
          obtain ⟨hpool, hw⟩ := hr.held k (hholds k rfl)
          obtain ⟨htid, hwait, n, hn, hst⟩ := hj
          simp only [ThrPc.Joins, hpool, hw]
          exact ⟨htid, hwait, n, hn, hex n st hst⟩
      | reap k st | unname k st =>
          obtain ⟨hpool, hw⟩ := hr.held k (hholds k rfl)
          obtain ⟨htid, hwait, n, hn, hst⟩ := hj
          simp only [ThrPc.Joins, hpool, hw]
          exact ⟨htid, hwait, n, hn, hex n st hst⟩
      | unlock k st =>
          obtain ⟨n, hn, hst, htake⟩ := hj
          exact ⟨n, hn, hex n st hst, hr.taker n htake⟩

/-- What a step of thread `t` establishes. -/
def Joined (s : ThrLib) (g : JoinGhost) (t : ℕ) (p : ThrPc) (pc : ℕ → ThrPc) : Prop :=
  JoinInv s g ∧ JoinAssert s g t p ∧ ∀ u, u ≠ t → JoinAssert s g u (pc u)

/-! ### Steps that have nothing to do with joins -/

/-- The step keeps the tids of the slots and what a waiting thread relies on. -/
structure SameJoins (s : ThrLib) (g : JoinGhost) (t : ℕ) (s' : ThrLib) : Prop where
  kTid : ∀ k, (s'.threadPool k).kTid = (s.threadPool k).kTid
  waiting : ∀ k, g.waiter k ≠ none →
    (s'.threadPool k).pendingJoin = (s.threadPool k).pendingJoin ∧
      ((s'.threadPool k).status = .dead → (s.threadPool k).status = .dead)
  held : ∀ k u, u ≠ t → (s.threadPool k).m = some u → s'.threadPool k = s.threadPool k
  joined : s'.joined = s.joined
  exited : ∀ t, s.exited t ≠ none → s'.exited t = s.exited t
  tids : ∀ t ∈ s.tids, t ∈ s'.tids

lemma SameJoins.inv (hs : SameJoins s g t s') (h : JoinInv s g) : JoinInv s' g := by
  refine ⟨fun k w hw => ?_, fun r hr => ?_, ?_, fun n w hw => ?_⟩
  · obtain ⟨hpend, hne, htid⟩ := h.waiting k w hw
    obtain ⟨hpend', hdead⟩ := hs.waiting k (by rw [hw]; nofun)
    exact ⟨hpend'.trans hpend, fun hd => hne (hdead hd), by rw [hs.kTid]; exact htid⟩
  · rw [hs.joined] at hr
    obtain ⟨n, hn, hex, hin, hno⟩ := h.joined r hr
    refine ⟨n, hn, ?_, hs.tids n hin, fun k => by rw [hs.kTid]; exact hno k⟩
    rw [hs.exited n (by rw [hex]; nofun), hex]
  · rw [hs.joined]
    exact h.once
  · obtain ⟨hin, hno, hj⟩ := h.taken n w hw
    refine ⟨hs.tids n hin, fun k => by rw [hs.kTid]; exact hno k, ?_⟩
    rw [hs.joined]
    exact hj

lemma SameJoins.rely (hs : SameJoins s g t s') (hu : u ≠ t) : JoinRely s g u s' g :=
  ⟨hs.tids, fun k hk => ⟨hs.held k u hu hk, rfl⟩, fun _ => Iff.rfl, fun k _ => hs.kTid k,
    hs.exited, fun _ h => h⟩

section same

variable (hbase : Threads.Annotated SlotInv SlotAssert (s, pc)) (h : JoinInv s g)
  (hA : ∀ u, JoinAssert s g u (pc u))

include hbase h hA

/-- **A step that has nothing to do with joins.** -/
lemma Joined.same (hs : SameJoins s g t s') (ht : t ∈ s.tids)
    (hchild : ∀ d, p'.child = some d → (pc t).child = some d)
    (hminds : ∀ k, g.waiter k = some t → p'.Minds k) (hjoins : p'.Joins s' g t) :
    Joined s' g t p' pc := by
  refine ⟨hs.inv h, ⟨fun _ => hs.tids t ht, fun d hd => ?_, hminds, hjoins⟩,
    fun u hu => (hA u).stable (hs.rely hu) (fun k hk => mutex_of_holds hbase hk) fun d hd => ?_⟩
  · rw [hs.joined]
    exact (hA t).child d (hchild d hd)
  · rw [hs.joined]
    exact (hA u).child d hd

end same

/-- A step that writes no slot. -/
lemma sameJoins_of_pool (hpool : s'.threadPool = s.threadPool) (hjoined : s'.joined = s.joined)
    (hexited : ∀ v, s.exited v ≠ none → s'.exited v = s.exited v)
    (htids : ∀ v ∈ s.tids, v ∈ s'.tids) : SameJoins s g t s' :=
  ⟨fun k => by rw [hpool], fun k _ => by rw [hpool]; exact ⟨rfl, id⟩,
    fun k _ _ _ => congrFun hpool k, hjoined, hexited, htids⟩

/-- A step that writes a slot, free or held by the thread. -/
lemma sameJoins_of_update {d : ThreadT} (hpool : s'.threadPool = Function.update s.threadPool k d)
    (hm : (s.threadPool k).m = none ∨ (s.threadPool k).m = some t)
    (hkTid : d.kTid = (s.threadPool k).kTid)
    (hwait : g.waiter k ≠ none → d.pendingJoin = (s.threadPool k).pendingJoin ∧
      (d.status = .dead → (s.threadPool k).status = .dead))
    (hjoined : s'.joined = s.joined) (hexited : s'.exited = s.exited)
    (htids : s'.tids = s.tids) : SameJoins s g t s' := by
  refine ⟨fun l => ?_, fun l hl => ?_, fun l u hu hl => ?_, hjoined, fun v _ => by rw [hexited],
    fun v hv => by rw [htids]; exact hv⟩
  all_goals
    rw [hpool]
    by_cases hlk : l = k
  · subst hlk
    rw [Function.update_self, hkTid]
  · rw [Function.update_of_ne hlk]
  · subst hlk
    rw [Function.update_self]
    exact hwait hl
  · rw [Function.update_of_ne hlk]
    exact ⟨rfl, id⟩
  · subst hlk
    rcases hm with hm | hm <;> rw [hm] at hl
    · cases hl
    · exact absurd (Option.some.inj hl).symm hu
  · rw [Function.update_of_ne hlk]

lemma mutexLock_sameJoins (hs : s.mutexLock t k = some s') : SameJoins s g t s' := by
  obtain ⟨hm, rfl⟩ := mutexLock_eq_some hs
  exact sameJoins_of_update rfl (.inl hm) rfl (fun _ => ⟨rfl, id⟩) rfl rfl rfl

lemma mutexUnlock_sameJoins (hm : (s.threadPool k).m = some t) :
    SameJoins s g t (s.mutexUnlock k) :=
  sameJoins_of_update rfl (.inr hm) rfl (fun _ => ⟨rfl, id⟩) rfl rfl rfl

lemma rwlockRead_sameJoins (hs : s.rwlockRead = some s') : SameJoins s g t s' := by
  unfold ThrLib.rwlockRead at hs
  split_ifs at hs
  obtain rfl := Option.some.inj hs
  exact sameJoins_of_pool rfl rfl (fun _ _ => rfl) fun _ => id

lemma rwlockWrite_sameJoins (hs : s.rwlockWrite = some s') : SameJoins s g t s' := by
  unfold ThrLib.rwlockWrite at hs
  split_ifs at hs
  obtain rfl := Option.some.inj hs
  exact sameJoins_of_pool rfl rfl (fun _ _ => rfl) fun _ => id

lemma rwlockUnlock_sameJoins (s : ThrLib) : SameJoins s g t s.rwlockUnlock := by
  unfold ThrLib.rwlockUnlock
  split_ifs <;> exact sameJoins_of_pool rfl rfl (fun _ _ => rfl) fun _ => id

lemma SameJoins.refl (s : ThrLib) : SameJoins s g t s :=
  sameJoins_of_pool rfl rfl (fun _ _ => rfl) fun _ => id

section steps

variable (hbase : Threads.Annotated SlotInv SlotAssert (s, pc)) (h : JoinInv s g)
  (hA : ∀ u, JoinAssert s g u (pc u)) (ht : t ∈ s.tids)

include hbase h hA ht

/-! ### `thr_create` -/

/-- A step within `thr_create`, or out of it, that has nothing to do with joins. -/
lemma Joined.create {q : CreatePc} (hpc : pc t = .create q) (hs : SameJoins s g t s')
    (hchild : ∀ d, p'.child = some d → (ThrPc.create q).child = some d)
    (hjoins : p'.Joins s' g t) : Joined s' g t p' pc := by
  refine Joined.same hbase h hA hs ht (by rw [hpc]; exact hchild) (fun l hl => ?_) hjoins
  have := (hA t).waiter l hl
  rw [hpc] at this
  exact this.elim

/-- The thread names a slot: nobody has joined its child. -/
lemma joined_name {d : ℕ} {e : ThreadT} {size : ℕ} (hchild : (pc t).child = some d)
    (hminds : ∀ l, ¬ (pc t).Minds l) (htid : (s.threadPool k).kTid = -1)
    (hm : (s.threadPool k).m = none ∨ (s.threadPool k).m = some t) (he : e.kTid = d)
    (hc' : p'.child = none) (hjoins : p'.Joins s' g t)
    (hs : s' = { s.setThread k e with size := size }) : Joined s' g t p' pc := by
  obtain ⟨htake, hnot⟩ := (hA t).child d hchild
  have hself : s'.threadPool k = e := by
    rw [hs]
    exact Function.update_self ..
  have hof : ∀ l, l ≠ k → s'.threadPool l = s.threadPool l := by
    intro l hl
    rw [hs]
    exact Function.update_of_ne hl ..
  have htids : s'.tids = s.tids := by rw [hs]; rfl
  have hexited : s'.exited = s.exited := by rw [hs]; rfl
  have hjoined : s'.joined = s.joined := by rw [hs]; rfl
  have hnowait : g.waiter k = none := by
    rcases hw : g.waiter k with - | w
    · rfl
    · have := (h.waiting k w hw).2.2
      omega
  have hne : ∀ n : ℕ, n ≠ d → (∀ l, (s.threadPool l).kTid ≠ n) →
      ∀ l, (s'.threadPool l).kTid ≠ n := by
    intro n hn hl l
    by_cases hlk : l = k
    · rw [hlk, hself, he]
      omega
    · rw [hof l hlk]
      exact hl l
  refine ⟨⟨fun l w hw => ?_, fun r hr => ?_, ?_, fun n w hw => ?_⟩, ⟨fun _ => ?_, fun e he => ?_,
    fun l hl => absurd ((hA t).waiter l hl) (hminds l), hjoins⟩, fun u hu => (hA u).stable ?_
      (fun l hl => mutex_of_holds hbase hl) fun e he => ?_⟩
  · have hlk : l ≠ k := by
      rintro rfl
      rw [hnowait] at hw
      cases hw
    rw [hof l hlk]
    exact h.waiting l w hw
  · rw [hjoined] at hr
    obtain ⟨n, hn, hex, hin, hno⟩ := h.joined r hr
    refine ⟨n, hn, by rw [hexited]; exact hex, by rw [htids]; exact hin, hne n ?_ hno⟩
    rintro rfl
    exact hnot r hr hn
  · rw [hjoined]
    exact h.once
  · obtain ⟨hin, hno, hj⟩ := h.taken n w hw
    refine ⟨by rw [htids]; exact hin, hne n ?_ hno, by rw [hjoined]; exact hj⟩
    rintro rfl
    rw [htake] at hw
    cases hw
  · rw [htids]
    exact ht
  · rw [hc'] at he
    cases he
  · refine ⟨fun v hv => by rw [htids]; exact hv, fun l hl => ⟨hof l ?_, rfl⟩, fun _ => Iff.rfl,
      fun l hl => ?_, fun v _ => by rw [hexited], fun _ hw => hw⟩
    · rintro rfl
      rcases hm with hm | hm <;> rw [hm] at hl
      · cases hl
      · exact hu (Option.some.inj hl).symm
    · rw [hof l]
      rintro rfl
      rw [hnowait] at hl
      cases hl
  · rw [hjoined]
    exact (hA u).child e he

/-- The thread forks a child, whom nobody can have joined. -/
lemma joined_fork {q : CreatePc} {d : ℕ} {esp : BitVec 32} (hpc : pc t = .create q)
    (hd : d ∉ s.tids) (hchild : p'.child = some d) (hjoins : ∀ s', p'.Joins s' g t) :
    Joined { s with tids := d :: s.tids, top := Function.update s.top d esp } g t p' pc := by
  have hs : SameJoins s g t { s with tids := d :: s.tids, top := Function.update s.top d esp } :=
    sameJoins_of_pool rfl rfl (fun _ _ => rfl) fun v hv => .tail d hv
  refine ⟨hs.inv h, ⟨fun _ => .tail d ht, fun e he => ?_, fun k hk => ?_, hjoins _⟩,
    fun u hu => (hA u).stable (hs.rely hu) (fun k hk => mutex_of_holds hbase hk) (hA u).child⟩
  · obtain rfl : d = e := Option.some.inj (hchild.symm.trans he)
    constructor
    · rcases htk : g.taker d with - | w
      · rfl
      · exact absurd (h.taken d w htk).1 hd
    · intro r hr hrd
      obtain ⟨n, hn, -, hin, -⟩ := h.joined r hr
      obtain rfl : n = d := by omega
      exact hd hin
  · have := (hA t).waiter k hk
    rw [hpc] at this
    exact this.elim

/-- **The steps of `thr_create`** keep the joins right. -/
theorem createNext_joined {q : CreatePc} (hpc : pc t = .create q)
    (hs : createNext s t q a = some (s', p')) : Joined s' g t p' pc := by
  -- a creating thread has nothing to do with the joins, but for the tid that it gives a slot
  obtain ⟨gs, hI, hS⟩ : ∃ gs, SlotInv s gs ∧ ∀ u, SlotAssert s gs u (pc u) := id hbase
  cases a with
  | thrCreate | thrExit _ | thrJoin _ => cases q <;> cases hs
  | fail =>
      cases q with
      | page esp =>
          simp only [createNext] at hs
          split_ifs at hs
          obtain ⟨rfl, rfl⟩ := Prod.mk.inj (Option.some.inj hs)
          exact Joined.create hbase h hA ht hpc (.refl s) (fun _ hc => by cases hc) trivial
      | fork found esp =>
          cases found <;> obtain ⟨rfl, rfl⟩ := Prod.mk.inj (Option.some.inj hs)
          all_goals
            exact Joined.create hbase h hA ht hpc (.refl s)
              (fun _ hc => by cases hc) trivial
      | _ => cases hs
  | fork d =>
      cases q with
      | fork found esp =>
          simp only [createNext] at hs
          split_ifs at hs with hd
          obtain ⟨rfl, rfl⟩ := Prod.mk.inj (Option.some.inj hs)
          cases found <;> exact joined_fork hbase h hA ht hpc hd rfl fun _ => trivial
      | _ => cases hs
  | add pending status =>
      cases q with
      | add d esp =>
          obtain ⟨rfl, rfl⟩ := Prod.mk.inj (Option.some.inj hs)
          -- the slot beyond the pool has no tid, and nobody holds its mutex
          obtain ⟨htid, -, hm⟩ := hI.beyond s.size le_rfl
          exact joined_name hbase h hA ht (d := d) (by rw [hpc]; rfl)
            (by rw [hpc]; exact fun _ => id) htid (.inl hm) rfl rfl trivial rfl
      | _ => cases hs
  | run =>
      cases q with
      | lock =>
          simp only [createNext, Option.map_eq_some_iff] at hs
          obtain ⟨s₁, h₁, heq⟩ := hs
          obtain ⟨rfl, rfl⟩ := Prod.mk.inj heq
          exact Joined.create hbase h hA ht hpc (rwlockRead_sameJoins h₁)
            (fun _ hc => by cases hc) trivial
      | scan k =>
          simp only [createNext] at hs
          split_ifs at hs <;> obtain ⟨rfl, rfl⟩ := Prod.mk.inj (Option.some.inj hs)
          all_goals
            exact Joined.create hbase h hA ht hpc (.refl s)
              (fun _ hc => by cases hc) trivial
      | take k | revertTake k | revertAgain k =>
          simp only [createNext, Option.map_eq_some_iff] at hs
          obtain ⟨s₁, h₁, heq⟩ := hs
          obtain ⟨rfl, rfl⟩ := Prod.mk.inj heq
          exact Joined.create hbase h hA ht hpc (mutexLock_sameJoins h₁)
            (fun _ hc => by cases hc) trivial
      | tidTake k d =>
          simp only [createNext, Option.map_eq_some_iff] at hs
          obtain ⟨s₁, h₁, heq⟩ := hs
          obtain ⟨rfl, rfl⟩ := Prod.mk.inj heq
          exact Joined.create hbase h hA ht hpc (mutexLock_sameJoins h₁) (fun _ => id) trivial
      | check k =>
          have hm := (hS t).holds k (by simp only [hpc, ThrPc.holds])
          simp only [createNext] at hs
          split_ifs at hs with hd
          · obtain ⟨rfl, rfl⟩ := Prod.mk.inj (Option.some.inj hs)
            exact Joined.create hbase h hA ht hpc
              (sameJoins_of_update rfl (.inr hm) rfl (fun _ => ⟨rfl, fun hd => by cases hd⟩)
                rfl rfl rfl) (fun _ hc => by cases hc) trivial
          · obtain ⟨rfl, rfl⟩ := Prod.mk.inj (Option.some.inj hs)
            exact Joined.create hbase h hA ht hpc (.refl s) (fun _ hc => by cases hc) trivial
      | giveUp k | claimed k esp | tidUnlock k =>
          have hm := (hS t).holds k (by simp only [hpc, ThrPc.holds])
          obtain ⟨rfl, rfl⟩ := Prod.mk.inj (Option.some.inj hs)
          exact Joined.create hbase h hA ht hpc (mutexUnlock_sameJoins hm)
            (fun _ hc => by cases hc) trivial
      | size =>
          obtain ⟨rfl, rfl⟩ := Prod.mk.inj (Option.some.inj hs)
          exact Joined.create hbase h hA ht hpc (.refl s) (fun _ hc => by cases hc) trivial
      | release found esp =>
          cases found <;> obtain ⟨rfl, rfl⟩ := Prod.mk.inj (Option.some.inj hs)
          all_goals
            exact Joined.create hbase h hA ht hpc (rwlockUnlock_sameJoins s)
              (fun _ hc => by cases hc) trivial
      | page esp =>
          simp only [createNext] at hs
          split_ifs at hs <;> obtain ⟨rfl, rfl⟩ := Prod.mk.inj (Option.some.inj hs)
          all_goals
            exact Joined.create hbase h hA ht hpc (.refl s)
              (fun _ hc => by cases hc) trivial
      | bottom esp =>
          obtain ⟨rfl, rfl⟩ := Prod.mk.inj (Option.some.inj hs)
          exact Joined.create hbase h hA ht hpc
            (sameJoins_of_pool rfl rfl (fun _ _ => rfl) fun _ => id)
            (fun _ hc => by cases hc) trivial
      | addLock d esp =>
          simp only [createNext, Option.map_eq_some_iff] at hs
          obtain ⟨s₁, h₁, heq⟩ := hs
          obtain ⟨rfl, rfl⟩ := Prod.mk.inj heq
          exact Joined.create hbase h hA ht hpc (rwlockWrite_sameJoins h₁) (fun _ => id) trivial
      | addUnlock =>
          obtain ⟨rfl, rfl⟩ := Prod.mk.inj (Option.some.inj hs)
          exact Joined.create hbase h hA ht hpc (rwlockUnlock_sameJoins s)
            (fun _ hc => by cases hc) trivial
      | tidSet k d =>
          have hm := (hS t).holds k (by simp only [hpc, ThrPc.holds])
          -- a slot that was claimed has no tid until its claimant gives it one
          have htid : (s.threadPool k).kTid = -1 :=
            (slot_of_claims hbase (t := t) (by simp only [hpc, ThrPc.claims])).2
          obtain ⟨rfl, rfl⟩ := Prod.mk.inj (Option.some.inj hs)
          exact joined_name hbase h hA ht (d := d) (by rw [hpc]; rfl)
            (by rw [hpc]; exact fun _ => id) htid (.inr hm) rfl rfl trivial rfl
      | revert k =>
          have hm := (hS t).holds k (by simp only [hpc, ThrPc.holds])
          have htid : (s.threadPool k).kTid = -1 :=
            (slot_of_claims hbase (t := t) (by simp only [hpc, ThrPc.claims])).2
          obtain ⟨rfl, rfl⟩ := Prod.mk.inj (Option.some.inj hs)
          refine Joined.create hbase h hA ht hpc
            (sameJoins_of_update rfl (.inr hm) rfl (fun hw => ?_) rfl rfl rfl)
            (fun _ hc => by cases hc) trivial
          -- nobody waits on a slot without a tid
          obtain ⟨w, hw⟩ := Option.ne_none_iff_exists'.mp hw
          have := (h.waiting k w hw).2.2
          omega
      | fork _ _ | add _ _ => cases hs

/-! ### `thr_exit` -/

/-- **The steps of `thr_exit`** keep the joins right. -/
theorem exitNext_joined {q : ExitPc} {st : ℤ} (hpc : pc t = .exit st q)
    (hs : exitNext s t st q a = some (s', p')) : Joined s' g t p' pc := by
  have hgo : ∀ {s₁ p₁}, SameJoins s g t s₁ → p₁.child = none → p₁.Joins s₁ g t →
      Joined s₁ g t p₁ pc := by
    intro s₁ p₁ hs₁ hc hj
    refine Joined.same hbase h hA hs₁ ht (fun d hd => ?_) (fun l hl => ?_) hj
    · rw [hc] at hd
      cases hd
    · have := (hA t).waiter l hl
      rw [hpc] at this
      exact this.elim
  have hmutex : ∀ k, (pc t).holds = some k → (s.threadPool k).m = some t :=
    fun k hk => mutex_of_holds hbase hk
  cases a with
  | thrCreate | thrExit _ | thrJoin _ | fail | fork _ | add _ _ => cases q <;> cases hs
  | run =>
      cases q with
      | lock =>
          simp only [exitNext, Option.map_eq_some_iff] at hs
          obtain ⟨s₁, h₁, heq⟩ := hs
          obtain ⟨rfl, rfl⟩ := Prod.mk.inj heq
          exact hgo (rwlockRead_sameJoins h₁) rfl trivial
      | take k =>
          simp only [exitNext, Option.map_eq_some_iff] at hs
          obtain ⟨s₁, h₁, heq⟩ := hs
          obtain ⟨rfl, rfl⟩ := Prod.mk.inj heq
          exact hgo (mutexLock_sameJoins h₁) rfl trivial
      | scan k =>
          simp only [exitNext] at hs
          split_ifs at hs <;> obtain ⟨rfl, rfl⟩ := Prod.mk.inj (Option.some.inj hs)
          all_goals exact hgo (.refl s) rfl trivial
      | retry | release =>
          obtain ⟨rfl, rfl⟩ := Prod.mk.inj (Option.some.inj hs)
          exact hgo (rwlockUnlock_sameJoins s) rfl trivial
      | mark k =>
          have hm := hmutex k (by rw [hpc]; rfl)
          obtain ⟨rfl, rfl⟩ := Prod.mk.inj (Option.some.inj hs)
          exact hgo (sameJoins_of_update rfl (.inr hm) rfl
            (fun _ => ⟨rfl, fun hd => by cases hd⟩) rfl rfl rfl) rfl
            trivial
      | save k =>
          have hm := hmutex k (by rw [hpc]; rfl)
          obtain ⟨rfl, rfl⟩ := Prod.mk.inj (Option.some.inj hs)
          exact hgo (sameJoins_of_update rfl (.inr hm) rfl (fun _ => ⟨rfl, id⟩) rfl rfl rfl) rfl
            trivial
      | signal k =>
          have hm := hmutex k (by rw [hpc]; rfl)
          simp only [exitNext] at hs
          split at hs <;> obtain ⟨rfl, rfl⟩ := Prod.mk.inj (Option.some.inj hs)
          · exact hgo (.refl s) rfl trivial
          · exact hgo (sameJoins_of_update rfl (.inr hm) rfl (fun _ => ⟨rfl, id⟩) rfl rfl rfl) rfl
              trivial
      | wake k w =>
          obtain ⟨rfl, rfl⟩ := Prod.mk.inj (Option.some.inj hs)
          exact hgo (sameJoins_of_pool rfl rfl (fun _ _ => rfl) fun _ => id) rfl trivial
      | unlock k =>
          have hm := hmutex k (by rw [hpc]; rfl)
          obtain ⟨rfl, rfl⟩ := Prod.mk.inj (Option.some.inj hs)
          exact hgo (mutexUnlock_sameJoins hm) rfl trivial
      | vanish =>
          obtain ⟨rfl, rfl⟩ := Prod.mk.inj (Option.some.inj hs)
          exact hgo (.refl s) rfl trivial

/-! ### `thr_join` -/

omit ht in
/-- The thread that holds the slot and waited on it, if any did, waits no more. -/
lemma joined_unwait (hm : (s.threadPool k).m = some t)
    (hw : g.waiter k = none ∨ g.waiter k = some t)
    (hjoins : (pc t).Joins s { g with waiter := Function.update g.waiter k none } t) :
    JoinInv s { g with waiter := Function.update g.waiter k none } ∧
      ∀ u, JoinAssert s { g with waiter := Function.update g.waiter k none } u (pc u) := by
  have hsub : ∀ l w, Function.update g.waiter k none l = some w → g.waiter l = some w := by
    intro l w hl
    by_cases hlk : l = k
    · rw [hlk, Function.update_self] at hl
      cases hl
    · rwa [Function.update_of_ne hlk] at hl
  refine ⟨⟨fun l w hl => h.waiting l w (hsub l w hl), h.joined, h.once, h.taken⟩, fun u => ?_⟩
  by_cases hu : u = t
  · subst hu
    exact ⟨(hA u).inside, (hA u).child, fun l hl => (hA u).waiter l (hsub l u hl), hjoins⟩
  · refine (hA u).stable ⟨fun _ => id, fun l hl => ⟨rfl, Function.update_of_ne ?_ ..⟩,
      fun l => ⟨hsub l u, fun hl => (Function.update_of_ne ?_ ..).trans hl⟩, fun _ _ => rfl,
      fun _ _ => rfl, fun _ hl => hl⟩ (fun l hl => mutex_of_holds hbase hl) (hA u).child
    · rintro rfl
      rw [hm] at hl
      exact hu (Option.some.inj hl).symm
    · rintro rfl
      rcases hw with hw | hw <;> rw [hw] at hl
      · cases hl
      · exact hu (Option.some.inj hl).symm

/-- The thread waits on the slot. -/
lemma joined_wait {tid : ℤ} {q : List ℕ} (hpc : pc t = .join tid (.test k))
    (halive : (s.threadPool k).status = .alive) (hpend : (s.threadPool k).pendingJoin = false)
    (hs : s' = { s.setThread k { s.threadPool k with pendingJoin := true, joinCv := q, m := none }
      with reject := Function.update s.reject t false }) :
    Joined s' { g with waiter := Function.update g.waiter k (some t) } t (.join tid (.wait k .test))
      pc := by
  have hAt := hA t
  have hj := hAt.joins
  rw [hpc] at hj
  obtain ⟨-, htid0, htid, -⟩ := hj
  have hm : (s.threadPool k).m = some t :=
    mutex_of_holds hbase (show (pc t).holds = some k by rw [hpc]; rfl)
  have hnone : g.waiter k = none := by
    rcases hw : g.waiter k with - | w
    · rfl
    · rw [(h.waiting k w hw).1] at hpend
      cases hpend
  have hsame : SameJoins s g t s' := by
    subst hs
    exact sameJoins_of_update rfl (.inr hm) rfl (fun hw => absurd hnone hw) rfl rfl rfl
  have hself : s'.threadPool k =
      { s.threadPool k with pendingJoin := true, joinCv := q, m := none } := by
    rw [hs]
    exact Function.update_self ..
  have hinv := hsame.inv h
  refine ⟨⟨fun l w hw => ?_, hinv.joined, hinv.once, hinv.taken⟩, ⟨fun _ => hsame.tids t ht, nofun,
    fun l hl => ?_, Function.update_self .., ?_⟩, fun u hu => ?_⟩
  · by_cases hlk : l = k
    · subst hlk
      rw [hself]
      refine ⟨rfl, ?_, ?_⟩
      · change (s.threadPool l).status ≠ .dead
        rw [halive]
        nofun
      · change 0 ≤ (s.threadPool l).kTid
        omega
    · change Function.update g.waiter k (some t) l = some w at hw
      rw [Function.update_of_ne hlk] at hw
      exact hinv.waiting l w hw
  · by_cases hlk : l = k
    · exact hlk.symm
    · change Function.update g.waiter k (some t) l = some t at hl
      rw [Function.update_of_ne hlk] at hl
      have := hAt.waiter l hl
      rw [hpc] at this
      exact this
  · rw [hself]
    exact htid
  · refine (hA u).stable ⟨hsame.tids,
      fun l hl => ⟨hsame.held l u hu hl, Function.update_of_ne ?_ ..⟩,
      fun l => ?_, fun l _ => hsame.kTid l, hsame.exited, fun _ hl => hl⟩
      (fun l hl => mutex_of_holds hbase hl) fun d hd => ?_
    · rintro rfl
      rw [hm] at hl
      exact hu (Option.some.inj hl).symm
    · change Function.update g.waiter k (some t) l = some u ↔ _
      by_cases hlk : l = k
      · subst hlk
        rw [Function.update_self, hnone]
        exact ⟨fun heq => absurd (Option.some.inj heq).symm hu, nofun⟩
      · rw [Function.update_of_ne hlk]
    · rw [hsame.joined]
      exact (hA u).child d hd

/-- The thread takes the name of the thread that it has reaped off its slot. -/
lemma joined_unname {tid st : ℤ} (hpc : pc t = .join tid (.unname k st)) :
    ∃ g', Joined (s.setThread k { s.threadPool k with kTid := -1 }) g' t
      (.join tid (.unlock k st)) pc := by
  obtain ⟨gs, hI, hS⟩ : ∃ gs, SlotInv s gs ∧ ∀ u, SlotAssert s gs u (pc u) := id hbase
  have hAt := hA t
  have hj := hAt.joins
  rw [hpc] at hj
  obtain ⟨htid, hnone, n, hn, hex⟩ := hj
  have hm : (s.threadPool k).m = some t :=
    mutex_of_holds hbase (show (pc t).holds = some k by rw [hpc]; rfl)
  -- the slot holds the tid of the target until this step, and no other slot does
  have hkn : (s.threadPool k).kTid = n := htid.trans hn
  obtain ⟨s', hs'⟩ : ∃ s', s' = s.setThread k { s.threadPool k with kTid := -1 } := ⟨_, rfl⟩
  have hself : s'.threadPool k = { s.threadPool k with kTid := -1 } := by
    rw [hs']
    exact Function.update_self ..
  have hof : ∀ l, l ≠ k → s'.threadPool l = s.threadPool l := by
    intro l hl
    rw [hs']
    exact Function.update_of_ne hl ..
  -- nothing is named by the step
  have hno : ∀ v : ℕ, (∀ l, (s.threadPool l).kTid ≠ v) → ∀ l, (s'.threadPool l).kTid ≠ v := by
    intro v hv l
    by_cases hlk : l = k
    · rw [hlk, hself]
      exact (show (-1 : ℤ) ≠ v by omega)
    · rw [hof l hlk]
      exact hv l
  -- afterwards the target has no slot
  have hnon : ∀ l, (s'.threadPool l).kTid ≠ n := by
    intro l
    by_cases hlk : l = k
    · rw [hlk, hself]
      exact (show (-1 : ℤ) ≠ n by omega)
    · rw [hof l hlk]
      exact fun hl => hlk (hI.unique l k n hl hkn)
  have hjoined : s'.joined = s.joined := by rw [hs']; rfl
  have htids : s'.tids = s.tids := by rw [hs']; rfl
  have hexited : s'.exited = s.exited := by rw [hs']; rfl
  -- the caller takes the target, as `taker` notes
  rw [← hs']
  refine ⟨{ g with taker := Function.update g.taker n (some t) }, ⟨fun l w hw => ?_, fun r hr => ?_,
    ?_, fun v w hv => ?_⟩, ⟨fun _ => ?_, nofun, fun l hl => ?_, n, hn, ?_, Function.update_self ..⟩,
    fun u hu => (hA u).stable ⟨fun v hv => ?_, fun l hl => ⟨hof l ?_, rfl⟩, fun _ => Iff.rfl,
      fun l hl => ?_, fun v _ => by rw [hexited], fun v hv => ?_⟩
      (fun l hl => mutex_of_holds hbase hl) fun d hd => ⟨?_, ?_⟩⟩
  · have hlk : l ≠ k := by
      rintro rfl
      rw [show g.waiter l = none from hnone] at hw
      cases hw
    rw [hof l hlk]
    exact h.waiting l w hw
  · rw [hjoined] at hr
    obtain ⟨v, hv, hvx, hin, hvno⟩ := h.joined r hr
    exact ⟨v, hv, by rw [hexited]; exact hvx, by rw [htids]; exact hin, hno v hvno⟩
  · rw [hjoined]
    exact h.once
  · rw [htids, hjoined]
    by_cases hvn : v = n
    · subst hvn
      refine ⟨hI.forked v (hI.named k v hkn), hnon, fun r hr hrv => ?_⟩
      obtain ⟨v', hv', -, -, hv'no⟩ := h.joined r hr
      obtain rfl : v = v' := by omega
      exact hv'no k hkn
    · change Function.update g.taker n (some t) v = some w at hv
      rw [Function.update_of_ne hvn] at hv
      obtain ⟨hin, hvno, hvj⟩ := h.taken v w hv
      exact ⟨hin, hno v hvno, hvj⟩
  · rw [htids]
    exact ht
  · have := hAt.waiter l hl
    rw [hpc] at this
    exact this.elim
  · rw [hexited]
    exact hex
  · rw [htids]
    exact hv
  · rintro rfl
    rw [hm] at hl
    exact hu (Option.some.inj hl).symm
  · rw [hof l]
    rintro rfl
    rw [show g.waiter l = none from hnone] at hl
    cases hl
  · change Function.update g.taker n (some t) v = some u
    rw [Function.update_of_ne]
    · exact hv
    · rintro rfl
      exact (h.taken v u hv).2.1 k hkn
  · change Function.update g.taker n (some t) d = none
    rw [Function.update_of_ne]
    · exact ((hA u).child d hd).1
    · rintro rfl
      exact ((hS u).child d hd).2.2 (hI.named k d hkn)
  · rw [hjoined]
    exact ((hA u).child d hd).2

omit ht in
/-- The join returns. -/
lemma joined_return {tid st : ℤ} (hpc : pc t = .join tid (.unlock k st)) :
    ∃ g', Joined { s.mutexUnlock k with joined := (tid, st) :: s.joined } g' t .user pc := by
  have hAt := hA t
  have hj := hAt.joins
  rw [hpc] at hj
  obtain ⟨n, hn, hex, htake⟩ := hj
  obtain ⟨hnin, hnno, hnj⟩ := h.taken n t htake
  have hm : (s.threadPool k).m = some t :=
    mutex_of_holds hbase (show (pc t).holds = some k by rw [hpc]; rfl)
  have hsame : SameJoins s g t (s.mutexUnlock k) := mutexUnlock_sameJoins hm
  have hinv := hsame.inv h
  have hdrop : ∀ v w, Function.update g.taker n none v = some w → v ≠ n ∧ g.taker v = some w := by
    intro v w hv
    by_cases hvn : v = n
    · rw [hvn, Function.update_self] at hv
      cases hv
    · rw [Function.update_of_ne hvn] at hv
      exact ⟨hvn, hv⟩
  have hnew : ∀ v : ℕ, v ≠ n → (∀ r ∈ s.joined, r.1 ≠ v) →
      ∀ r ∈ (tid, st) :: s.joined, r.1 ≠ (v : ℤ) := by
    intro v hv hr r hmem
    rcases List.mem_cons.mp hmem with rfl | hmem
    · change tid ≠ v
      omega
    · exact hr r hmem
  refine ⟨{ g with taker := Function.update g.taker n none }, ⟨hinv.waiting, fun r hr => ?_, ?_,
    fun v w hv => ?_⟩, ⟨fun hn => absurd rfl hn, nofun, fun l hl => ?_, trivial⟩, fun u hu => ?_⟩
  · rcases List.mem_cons.mp hr with rfl | hr
    · exact ⟨n, hn, hex, hnin, fun l => by rw [hsame.kTid l]; exact hnno l⟩
    · exact hinv.joined r hr
  · change (tid :: s.joined.map Prod.fst).Nodup
    refine List.nodup_cons.mpr ⟨fun hmem => ?_, h.once⟩
    obtain ⟨r, hr, hrt⟩ := List.mem_map.mp hmem
    exact hnj r hr (hrt.trans hn)
  · obtain ⟨hvn, hv'⟩ := hdrop v w hv
    obtain ⟨hin, hno, hvj⟩ := hinv.taken v w hv'
    exact ⟨hin, hno, hnew v hvn hvj⟩
  · have := hAt.waiter l hl
    rw [hpc] at this
    exact this.elim
  · refine (hA u).stable ⟨hsame.tids, fun l hl => ⟨hsame.held l u hu hl, rfl⟩, fun _ => Iff.rfl,
      fun l _ => hsame.kTid l, hsame.exited, fun v hv => ?_⟩
      (fun l hl => mutex_of_holds hbase hl) fun d hd => ?_
    · change Function.update g.taker n none v = some u
      rw [Function.update_of_ne]
      · exact hv
      · rintro rfl
        rw [htake] at hv
        exact hu (Option.some.inj hv).symm
    · obtain ⟨hdt, hdj⟩ := (hA u).child d hd
      have hdn : d ≠ n := by
        rintro rfl
        rw [htake] at hdt
        cases hdt
      refine ⟨?_, hnew d hdn hdj⟩
      change Function.update g.taker n none d = none
      rw [Function.update_of_ne hdn]
      exact hdt

/-- **The steps of `thr_join`** keep the joins right. -/
theorem joinNext_joined {q : JoinPc} {tid : ℤ} (hmatch : Matched (s, pc) (t, a))
    (hpc : pc t = .join tid q) (hs : joinNext s t tid q a = some (s', p')) :
    ∃ g', Joined s' g' t p' pc := by
  obtain ⟨gs, hI, hS⟩ : ∃ gs, SlotInv s gs ∧ ∀ u, SlotAssert s gs u (pc u) := id hbase
  have hAt := hA t
  have hj := hAt.joins
  have hmutex : ∀ k, (pc t).holds = some k → (s.threadPool k).m = some t :=
    fun k hk => mutex_of_holds hbase hk
  -- a step that names no slot anew, keeps what it minds and the notes of the slots
  have hgo : ∀ {s₁ p₁}, SameJoins s g t s₁ → p₁.child = none →
      (∀ k, ThrPc.Minds k (.join tid q) → p₁.Minds k) → p₁.Joins s₁ g t →
      ∃ g', Joined s₁ g' t p₁ pc := by
    intro s₁ p₁ hs₁ hc hmd hj₁
    refine ⟨g, Joined.same hbase h hA hs₁ ht (fun d hd => ?_) (fun l hl => hmd l ?_) hj₁⟩
    · rw [hc] at hd
      cases hd
    · rw [← hpc]
      exact hAt.waiter l hl
  rw [hpc] at hj
  cases a with
  | thrCreate | thrExit _ | thrJoin _ | fail | fork _ | add _ _ => cases q <;> cases hs
  | run =>
      cases q with
      | lock =>
          simp only [joinNext, Option.map_eq_some_iff] at hs
          obtain ⟨s₁, h₁, heq⟩ := hs
          obtain ⟨rfl, rfl⟩ := Prod.mk.inj heq
          exact hgo (rwlockRead_sameJoins h₁) rfl (fun _ => False.elim) trivial
      | scan k =>
          simp only [joinNext] at hs
          split_ifs at hs <;> obtain ⟨rfl, rfl⟩ := Prod.mk.inj (Option.some.inj hs)
          all_goals exact hgo (.refl s) rfl (fun _ => False.elim) trivial
      | giveUp | release k =>
          obtain ⟨rfl, rfl⟩ := Prod.mk.inj (Option.some.inj hs)
          exact hgo (rwlockUnlock_sameJoins s) rfl (fun _ => False.elim) trivial
      | take k =>
          simp only [joinNext, Option.map_eq_some_iff] at hs
          obtain ⟨s₁, h₁, heq⟩ := hs
          obtain ⟨rfl, rfl⟩ := Prod.mk.inj heq
          refine hgo (mutexLock_sameJoins h₁) rfl (fun _ => False.elim) ?_
          unfold Matched at hmatch
          simp only [hpc] at hmatch
          obtain ⟨-, rfl⟩ := mutexLock_eq_some h₁
          -- the slot was found under its tid, and only its mutex has changed
          simp only [ThrPc.Joins, (setThread_writes s k _).self]
          exact hmatch
      | enter k =>
          have hm := hmutex k (by rw [hpc]; rfl)
          simp only [joinNext] at hs
          split_ifs at hs with hd <;> obtain ⟨rfl, rfl⟩ := Prod.mk.inj (Option.some.inj hs)
          · exact hgo (.refl s) rfl (fun _ => False.elim) trivial
          -- the slot is not DEAD, so it is the one that the scan found
          · obtain ⟨h0, htid⟩ := hj.resolve_left hd
            refine hgo (.refl s) rfl (fun _ => False.elim) ⟨hd, h0, htid, fun hz => .inl ?_⟩
            unfold Matched at hmatch
            simp only [hpc] at hmatch
            -- whoever waits on the slot is blocked, as this thread holds the mutex
            rcases hw : g.waiter k with - | w
            · rfl
            · exfalso
              have hminds := (hA w).waiter k hw
              have hnot := hmatch hz w
              have hheld : (pc w).holds = some k → w = t := by
                intro hwk
                have := mutex_of_holds hbase hwk
                rw [show ((s, pc).1.threadPool k).m = some t from hm] at this
                exact (Option.some.inj this).symm
              have hin : w ∈ s.tids := by
                refine (hA w).inside fun hu => ?_
                rw [hu] at hminds
                exact hminds
              have hwt : w = t := by
                -- a thread that waits on `k` sleeps, comes back, or holds the mutex
                unfold ThrPc.Minds at hminds
                split at hminds
                case h_1 hwpc =>
                  rw [hwpc] at hnot
                  exact absurd hminds (hnot hin)
                case h_2 hwpc =>
                  rw [hwpc] at hnot
                  exact absurd hminds (hnot hin)
                case h_3 hwpc | h_4 hwpc | h_5 hwpc => exact hheld (by rw [hwpc, hminds]; rfl)
                case h_6 => exact hminds.elim
              rw [hwt, hpc] at hminds
              exact hminds
      | refuse k =>
          have hm := hmutex k (by rw [hpc]; rfl)
          obtain ⟨rfl, rfl⟩ := Prod.mk.inj (Option.some.inj hs)
          exact hgo (mutexUnlock_sameJoins hm) rfl (fun _ => False.elim) trivial
      | test k =>
          have hm := hmutex k (by rw [hpc]; rfl)
          obtain ⟨hnd, h0, htid, hzw⟩ := hj
          simp only [joinNext] at hs
          split_ifs at hs with halive hpend <;>
            obtain ⟨rfl, rfl⟩ := Prod.mk.inj (Option.some.inj hs)
          · by_cases hw : g.waiter k = some t
            · -- the thread has waited, and gives up
              obtain ⟨h', hA'⟩ := joined_unwait hbase h hA hm (.inr hw) (by
                rw [hpc]
                exact ⟨hnd, h0, htid, fun _ => .inl (Function.update_self ..)⟩)
              refine ⟨_, Joined.same hbase h' hA' (.refl s) ht (fun _ hc => by cases hc)
                (fun l hl => ?_) trivial⟩
              have hlk := (hA' t).waiter l hl
              rw [hpc] at hlk
              obtain rfl : k = l := hlk
              change Function.update g.waiter k none k = some t at hl
              rw [Function.update_self] at hl
              cases hl
            · refine ⟨g, Joined.same hbase h hA (.refl s) ht (fun _ hc => by cases hc)
                (fun l hl => ?_) trivial⟩
              have hlk := hAt.waiter l hl
              rw [hpc] at hlk
              obtain rfl : k = l := hlk
              exact absurd hl hw
          -- the target lives: the caller waits on the slot
          · rw [Bool.not_eq_true] at hpend
            exact ⟨_, joined_wait hbase h hA ht hpc halive hpend rfl⟩
          · refine hgo (.refl s) rfl (fun _ => id) ⟨hnd, htid, hzw ?_⟩
            rcases hst : (s.threadPool k).status with - | - | -
            · exact absurd hst halive
            · exact absurd hst hnd
            · rfl
      | wait k q =>
          -- inside `cond_wait` no slot is written
          obtain ⟨r, w, rfl, rfl | ⟨q', rfl⟩⟩ := sleepNext_writes hs
          all_goals
            exact hgo (sameJoins_of_pool rfl rfl (fun _ _ => rfl) fun _ => id) rfl (fun _ => id) hj
      | relock k =>
          simp only [joinNext, Option.map_eq_some_iff] at hs
          obtain ⟨s₁, h₁, heq⟩ := hs
          obtain ⟨rfl, rfl⟩ := Prod.mk.inj heq
          -- back from `cond_wait`: the slot is still that of the target, as its waiter is the
          -- caller
          obtain ⟨-, hnd, h0⟩ := h.waiting k t hj.1
          refine hgo (mutexLock_sameJoins h₁) rfl (fun _ => id) ?_
          obtain ⟨-, rfl⟩ := mutexLock_eq_some h₁
          simp only [ThrPc.Joins, (setThread_writes s k _).self]
          exact ⟨hnd, hj.2 ▸ h0, hj.2, fun _ => .inr hj.1⟩
      | save k =>
          obtain ⟨rfl, rfl⟩ := Prod.mk.inj (Option.some.inj hs)
          obtain ⟨hnd, htid, hw⟩ := hj
          have hne := (hS t).knows
          have hset := (hS t).settled k (by rw [hpc]; rfl) (by rw [hpc]; exact id)
          rw [hpc] at hne
          -- the slot of a ZOMBIE holds what its thread has left
          obtain ⟨n, hn, hex⟩ := hset.zombie (by
            rcases hst : (s.threadPool k).status with - | - | -
            · exact absurd hst hne
            · exact absurd hst hnd
            · rfl)
          exact hgo (.refl s) rfl (fun _ => id) ⟨htid, hw, n, htid.symm.trans hn, hex⟩
      | clear k st =>
          have hm := hmutex k (by rw [hpc]; rfl)
          obtain ⟨rfl, rfl⟩ := Prod.mk.inj (Option.some.inj hs)
          obtain ⟨htid, hw, hex⟩ := hj
          obtain ⟨h', hA'⟩ := joined_unwait hbase h hA hm hw (by
            rw [hpc]
            exact ⟨htid, .inl (Function.update_self ..), hex⟩)
          refine ⟨_, Joined.same hbase h' hA' (sameJoins_of_update rfl (.inr hm) rfl
            (fun hn => absurd (Function.update_self ..) hn) rfl rfl rfl) ht
            (fun _ hc => by cases hc) (fun l hl => ?_) ?_⟩
          · have hlk := (hA' t).waiter l hl
            rw [hpc] at hlk
            obtain rfl : k = l := hlk
            change Function.update g.waiter k none k = some t at hl
            rw [Function.update_self] at hl
            cases hl
          · simp only [ThrPc.Joins, (setThread_writes s k _).self, Function.update_self]
            exact ⟨htid, trivial, hex⟩
      | reap k st =>
          have hm := hmutex k (by rw [hpc]; rfl)
          obtain ⟨rfl, rfl⟩ := Prod.mk.inj (Option.some.inj hs)
          obtain ⟨htid, hw, hex⟩ := hj
          refine hgo (sameJoins_of_update rfl (.inr hm) rfl
            (fun hn => absurd hw hn) rfl rfl rfl) rfl
            (fun _ => False.elim) ?_
          simp only [ThrPc.Joins, (setThread_writes s k _).self]
          exact ⟨htid, hw, hex⟩
      | unname k st =>
          obtain ⟨rfl, rfl⟩ := Prod.mk.inj (Option.some.inj hs)
          exact joined_unname hbase h hA ht hpc
      | unlock k st =>
          obtain ⟨rfl, rfl⟩ := Prod.mk.inj (Option.some.inj hs)
          exact joined_return hbase h hA hpc

/-- **The steps of a thread** keep the joins right. -/
theorem thrNext_joined (hmatch : Matched (s, pc) (t, a))
    (hs : thrNext s t (pc t) a = some (s', p')) : ∃ g', Joined s' g' t p' pc := by
  have huser : ∀ {s₁ p₁}, pc t = .user → SameJoins s g t s₁ → p₁.child = none →
      p₁.Joins s₁ g t → ∃ g', Joined s₁ g' t p₁ pc := by
    intro s₁ p₁ hpc hs₁ hc hj
    refine ⟨g, Joined.same hbase h hA hs₁ ht (fun d hd => ?_) (fun l hl => ?_) hj⟩
    · rw [hc] at hd
      cases hd
    · have := (hA t).waiter l hl
      rw [hpc] at this
      exact this.elim
  obtain ⟨-, hnext⟩ := thrNext_eq_some hs
  generalize hpc : pc t = p at hnext
  cases hnext with
  | thrCreate => exact huser hpc (.refl s) rfl trivial
  | thrExit status =>
      refine huser hpc (sameJoins_of_pool rfl rfl (fun v hv => Function.update_of_ne ?_ ..)
        fun _ => id) rfl trivial
      -- the thread has not exited yet
      rintro rfl
      obtain ⟨gs, -, hS⟩ : ∃ gs, SlotInv s gs ∧ ∀ u, SlotAssert s gs u (pc u) := hbase
      have := (hS v).exited
      rw [hpc] at this
      exact hv this
  | thrJoin kTid => exact huser hpc (.refl s) rfl trivial
  | create hs => exact ⟨g, createNext_joined hbase h hA ht hpc hs⟩
  | exit hs => exact ⟨g, exitNext_joined hbase h hA ht hpc hs⟩
  | join hs => exact joinNext_joined hbase h hA ht hmatch hpc hs

end steps

/-! ### Runs -/

/-- When `thr_init` returns, nobody has joined anybody. -/
lemma joined_init (h : thrLib.init c) : Threads.Annotated JoinInv JoinAssert c := by
  obtain ⟨⟨main, h⟩, hpc⟩ := h
  refine ⟨⟨fun _ => none, fun _ => none⟩, ⟨nofun, fun r hr => ?_, ?_, nofun⟩, fun t => ?_⟩
  · rw [h.joined] at hr
    cases hr
  · rw [h.joined]
    exact List.nodup_nil
  · rw [hpc t]
    exact ⟨fun hn => absurd rfl hn, nofun, nofun, trivial⟩

/-- **The joins are right** in every matched run in which no two threads share a stack. -/
theorem joinedRight_of_matched
    (h : thrLib.machine.Reach (fun c a => Careful c a ∧ Matched c a) c) : JoinedRight c.1 := by
  have hbase := h.with fun _ => slotted_of_reach
  refine joinedRight_of_annotated (Threads.annotated_of_reach (fun _ => joined_init) ?_ hbase)
  intro s pc g t a s' p' hI hA hG hs
  exact thrNext_joined hG.2 hI hA (thrNext_eq_some hs).1 hG.1.2 hs

/-- Thread 0 creates thread 1 and waits for it; thread 1 exits, and thread 0 returns. -/
def joinRun : List (ℕ × ThrAct) :=
  createRun ++ (0, .thrJoin 1) :: steps 0 10 ++ exitRun ++ steps 1 1 ++ steps 0 9

/-- The run in which the join waits. -/
theorem joinedRight_of_matched_joinRun :
    ∃ c, Machine.replay (Machine.guarded (fun c a => Careful c a ∧ Matched c a) thrLib.next)
        afterInit joinRun = some c ∧ c.1.joined = [(1, 7)] ∧ JoinedRight c.1 := by
  have hrun : (Machine.replay (Machine.guarded (fun c a => Careful c a ∧ Matched c a) thrLib.next)
      afterInit joinRun).map (fun c => c.1.joined) = some [(1, 7)] := by
    decide +kernel
  rw [Option.map_eq_some_iff] at hrun
  obtain ⟨c, hc, hj⟩ := hrun
  refine ⟨c, hc, hj, joinedRight_of_matched ?_⟩
  exact Machine.reach_of_guarded (fun _ _ _ h => h) _ (.init afterInit_init) hc

/-- Thread 0 creates threads 1 and 2. -/
def createTwoRun : List (ℕ × ThrAct) :=
  createRun ++ (0, .thrCreate) :: steps 0 8 ++ [(0, .fork 2)] ++ steps 0 1 ++
    [(0, .add false 0)] ++ steps 0 1

/-- Thread 2 finds the slot of thread 1. Thread 1 exits, thread 0 joins it and creates thread 3
on its slot, which exits too; then thread 2 locks the slot. -/
def recycledRun : List (ℕ × ThrAct) :=
  createTwoRun ++ (2, .thrJoin 1) :: steps 2 4 ++ exitRun ++ steps 1 1 ++
    (0, .thrJoin 1) :: steps 0 12 ++ (0, .thrCreate) :: steps 0 7 ++ [(0, .fork 3)] ++ steps 0 3 ++
    (3, .thrExit 9) :: steps 3 9 ++ steps 2 8

/-- Thread 0 waits for thread 1. When it has exited, thread 2 joins it before thread 0 has got
the mutex. -/
def twiceRun : List (ℕ × ThrAct) :=
  createTwoRun ++ (0, .thrJoin 1) :: steps 0 10 ++ exitRun ++ steps 1 1 ++
    (2, .thrJoin 1) :: steps 2 12 ++ steps 0 9

/-- **Joins that are not right**: one that returns the status of another thread, and two that
return for one thread. -/
theorem not_joinedRight_of_recycled :
    (∃ c, thrLib.machine.Reachable c ∧ c.1.joined = [(1, 9), (1, 7)] ∧
      c.1.exited 1 = some 7 ∧ ¬ JoinedRight c.1) ∧
    ∃ c, thrLib.machine.Reachable c ∧ c.1.joined = [(1, 7), (1, 7)] ∧ c.1.size = 3 ∧
      ¬ JoinedRight c.1 := by
  have hrecycled : (Machine.replay thrLib.next afterInit recycledRun).map
      (fun c => decide (c.1.joined = [(1, 9), (1, 7)] ∧ c.1.exited 1 = some 7)) = some true := by
    decide +kernel
  have htwice : (Machine.replay thrLib.next afterInit twiceRun).map
      (fun c => decide (c.1.joined = [(1, 7), (1, 7)] ∧ c.1.size = 3)) = some true := by
    decide +kernel
  rw [Option.map_eq_some_iff] at hrecycled htwice
  constructor
  · obtain ⟨c, hc, heq⟩ := hrecycled
    obtain ⟨hj, hex⟩ := of_decide_eq_true heq
    refine ⟨c, ?_, hj, hex, fun h => ?_⟩
    · exact Machine.reach_of_replay (fun _ _ _ h => h) _ (fun _ _ _ => trivial)
        (.init afterInit_init) hc
    · obtain ⟨t, ht, hst⟩ := h.status (1, 9) (by rw [hj]; exact .head _)
      obtain rfl : 1 = t := by
        change (1 : ℤ) = t at ht
        omega
      rw [hex] at hst
      exact absurd hst (by decide)
  · obtain ⟨c, hc, heq⟩ := htwice
    obtain ⟨hj, hsize⟩ := of_decide_eq_true heq
    refine ⟨c, ?_, hj, hsize, fun h => ?_⟩
    · exact Machine.reach_of_replay (fun _ _ _ h => h) _ (fun _ _ _ => trivial)
        (.init afterInit_init) hc
    · have := h.once
      rw [hj] at this
      exact absurd this (by decide)

end ShrekOS
