/-
Who holds a mutex of the thread library, who is in the queue of a slot, and who has locked the
pool as a writer, in every run.

* `QueueInv`, `QueueAssert`: a thread that a mutex names is in that critical section, one in a
  queue waits there and has not been woken up, and a writer is on its way to its unlock;
* `queued_of_reach`: **every reachable state is annotated** so;
* `canStep_of_holds`, `canStep_of_writes`: **a thread that holds a mutex, or has locked the pool
  as a writer, can go on**, but for one that waits for the mutex that it holds.
-/
import ShrekOS.User.ThreadMoves

namespace ShrekOS

open Kit

/-- What the thread sees of the slot whose mutex it holds. -/
@[simp] def ThrPc.Sees (s : ThrLib) (t : ℕ) : ThrPc → Prop
  | .exit _ (.signal k) => (s.threadPool k).kTid = t ∧ (s.threadPool k).status = .zombie
  | .create (.revertAgain k) => (s.threadPool k).status = .dead
  | .join _ (.reap k _) | .join _ (.unname k _) => (s.threadPool k).pendingJoin = false
  | _ => True

/-- A queue holds no thread twice; `w` is the last writer of the pool. -/
structure QueueInv (s : ThrLib) (w : Option ℕ) : Prop where
  nodup : ∀ k < s.size, (s.threadPool k).joinCv.Nodup
  writer : s.writerLocked = true → ∃ t, w = some t

/-- **The assertion of a thread** about mutexes, queues and the lock of the pool. -/
structure QueueAssert (s : ThrLib) (w : Option ℕ) (t : ℕ) (p : ThrPc) : Prop where
  inside : p ≠ .user → t ∈ s.tids
  owner : ∀ k, (s.threadPool k).m = some t → p.holds = some k
  queued : ∀ k < s.size, t ∈ (s.threadPool k).joinCv → p.Waits k ∧ s.reject t = false
  sees : p.Sees s t
  writer : w = some t → s.writerLocked = true → p.Writes

variable {s s' : ThrLib} {w w' : Option ℕ} {t u k : ℕ} {p p' : ThrPc} {pc : ℕ → ThrPc}
  {a : ThrAct} {c : ThrLib × (ℕ → ThrPc)} {d : ThreadT}

/-- What a thread may expect from the steps of the others. -/
structure QueueRely (s : ThrLib) (w : Option ℕ) (u : ℕ) (s' : ThrLib) (w' : Option ℕ) : Prop where
  tids : ∀ v ∈ s.tids, v ∈ s'.tids
  owner : ∀ k, (s'.threadPool k).m = some u → (s.threadPool k).m = some u
  queued : ∀ k < s'.size, u ∈ (s'.threadPool k).joinCv →
    k < s.size ∧ u ∈ (s.threadPool k).joinCv ∧ s'.reject u = s.reject u
  held : ∀ k, (s.threadPool k).m = some u → s'.threadPool k = s.threadPool k
  writer : w' = some u → s'.writerLocked = true → w = some u ∧ s.writerLocked = true

/-- **The assertions are stable** under the steps of the others. -/
lemma QueueAssert.stable (h : QueueAssert s w u p) (hr : QueueRely s w u s' w')
    (hholds : ∀ k, p.holds = some k → (s.threadPool k).m = some u) : QueueAssert s' w' u p := by
  refine ⟨fun hp => hr.tids u (h.inside hp), fun k hk => h.owner k (hr.owner k hk),
    fun k hk hu => ?_, ?_, fun hw hl => ?_⟩
  · obtain ⟨hlt, hin, hsame⟩ := hr.queued k hk hu
    rw [hsame]
    exact h.queued k hlt hin
  · have hsees := h.sees
    cases p with
    | user | vanished => trivial
    | create q =>
        cases q <;> first
          | trivial
          | (simp only [ThrPc.Sees, hr.held _ (hholds _ rfl)] at hsees ⊢; exact hsees)
    | exit st q =>
        cases q <;> first
          | trivial
          | (simp only [ThrPc.Sees, hr.held _ (hholds _ rfl)] at hsees ⊢; exact hsees)
    | join tid q =>
        cases q <;> first
          | trivial
          | (simp only [ThrPc.Sees, hr.held _ (hholds _ rfl)] at hsees ⊢; exact hsees)
  · obtain ⟨hw', hl'⟩ := hr.writer hw hl
    exact h.writer hw' hl'

/-- What a step of thread `t` establishes. -/
def Queued (s : ThrLib) (w : Option ℕ) (t : ℕ) (p : ThrPc) (pc : ℕ → ThrPc) : Prop :=
  QueueInv s w ∧ QueueAssert s w t p ∧ ∀ u, u ≠ t → QueueAssert s w u (pc u)

lemma rwlockUnlock_writer (s : ThrLib) : s.rwlockUnlock.writerLocked = false := by
  unfold ThrLib.rwlockUnlock
  split_ifs with hw
  · rfl
  · simpa using hw

section steps

variable (hbase : Threads.Annotated SlotInv SlotAssert (s, pc)) (h : QueueInv s w)
  (hA : ∀ u, QueueAssert s w u (pc u)) (ht : t ∈ s.tids)

include hbase h hA ht

/-- **A step that writes no slot.** -/
lemma Queued.calm (hs : Calm s s') (hholds : ∀ k, (pc t).holds = some k → p'.holds = some k)
    (hwaits : ∀ k, (pc t).Waits k → s.reject t = false → p'.Waits k) (hsees : p'.Sees s t)
    (hwrites : ¬ (pc t).Writes) : Queued s' w t p' pc := by
  have hsees' : p'.Sees s' t := by
    cases p' <;> first
      | trivial
      | (simp only [ThrPc.Sees, hs.pool] at hsees ⊢; exact hsees)
  refine ⟨⟨fun k hk => ?_, fun hl => h.writer (hs.writer hl)⟩,
    ⟨fun _ => ?_, fun k hk => ?_, fun k hk hu => ?_, hsees',
      fun hw hl => absurd ((hA t).writer hw (hs.writer hl)) hwrites⟩,
    fun u hu => (hA u).stable ⟨fun v hv => ?_, fun k hk => ?_, fun k hk hin => ?_,
      fun k _ => congrFun hs.pool k, fun hw hl => ⟨hw, hs.writer hl⟩⟩
      fun k hk => mutex_of_holds hbase hk⟩
  · rw [hs.size] at hk
    rw [hs.pool]
    exact h.nodup k hk
  · rw [hs.tids]
    exact ht
  · rw [hs.pool] at hk
    exact hholds k ((hA t).owner k hk)
  · rw [hs.size] at hk
    rw [hs.pool] at hu
    obtain ⟨hw, hr⟩ := (hA t).queued k hk hu
    rw [hs.reject]
    exact ⟨hwaits k hw hr, hr⟩
  · rw [hs.tids]
    exact hv
  · rwa [hs.pool] at hk
  · rw [hs.size] at hk
    rw [hs.pool] at hin
    exact ⟨hk, hin, congrFun hs.reject u⟩

omit h hA ht hbase in
/-- A slot is written, free or held by the thread, and its queue gets no thread but that one. -/
lemma QueueRely.write (hpool : s'.threadPool = Function.update s.threadPool k d)
    (hsize : s'.size = s.size) (htids : s'.tids = s.tids) (hwl : s'.writerLocked = s.writerLocked)
    (hm : (s.threadPool k).m = none ∨ (s.threadPool k).m = some t)
    (hdm : d.m = none ∨ d.m = some t) (hu : u ≠ t) (hreject : s'.reject u = s.reject u)
    (hq : u ∈ d.joinCv → u ∈ (s.threadPool k).joinCv) : QueueRely s w u s' w := by
  refine ⟨fun v hv => by rw [htids]; exact hv, fun l hl => ?_, fun l hl hin => ?_,
    fun l hl => ?_, fun hw hl => ⟨hw, hwl ▸ hl⟩⟩
  · by_cases hlk : l = k
    · subst hlk
      rw [hpool, Function.update_self] at hl
      rcases hdm with hdm | hdm <;> rw [hdm] at hl
      · cases hl
      · exact absurd (Option.some.inj hl).symm hu
    · rwa [hpool, Function.update_of_ne hlk] at hl
  · rw [hsize] at hl
    by_cases hlk : l = k
    · subst hlk
      rw [hpool, Function.update_self] at hin
      exact ⟨hl, hq hin, hreject⟩
    · rw [hpool, Function.update_of_ne hlk] at hin
      exact ⟨hl, hin, hreject⟩
  · rw [hpool, Function.update_of_ne]
    rintro rfl
    rcases hm with hm | hm <;> rw [hm] at hl
    · cases hl
    · exact hu (Option.some.inj hl).symm

/-- **A step that writes a slot**, free or held by the thread, and adds nobody to its queue. -/
lemma Queued.touch (hpool : s'.threadPool = Function.update s.threadPool k d)
    (hsize : s'.size = s.size) (htids : s'.tids = s.tids) (hreject : s'.reject = s.reject)
    (hwl : s'.writerLocked = s.writerLocked)
    (hm : (s.threadPool k).m = none ∨ (s.threadPool k).m = some t)
    (hdm : d.m = none ∨ d.m = some t ∧ p'.holds = some k)
    (hsub : d.joinCv.Sublist (s.threadPool k).joinCv) (hp : ∀ l, (pc t).holds = some l → l = k)
    (hwaits : ∀ l, ¬ (pc t).Waits l) (hwrites : ¬ (pc t).Writes) (hsees : p'.Sees s' t) :
    Queued s' w t p' pc := by
  refine ⟨⟨fun l hl => ?_, fun hl => h.writer (hwl ▸ hl)⟩,
    ⟨fun _ => by rw [htids]; exact ht, fun l hl => ?_, fun l hl hin => ?_, hsees,
      fun hw hl => absurd ((hA t).writer hw (hwl ▸ hl)) hwrites⟩,
    fun u hu => (hA u).stable (QueueRely.write hpool hsize htids hwl hm (hdm.imp_right And.left) hu
      (congrFun hreject u) fun hin => hsub.subset hin) fun l hl => mutex_of_holds hbase hl⟩
  · rw [hsize] at hl
    rw [hpool]
    by_cases hlk : l = k
    · subst hlk
      rw [Function.update_self]
      exact (h.nodup l hl).sublist hsub
    · rw [Function.update_of_ne hlk]
      exact h.nodup l hl
  · by_cases hlk : l = k
    · subst hlk
      rw [hpool, Function.update_self] at hl
      rcases hdm with hdm | ⟨-, hh⟩
      · rw [hdm] at hl
        cases hl
      · exact hh
    · rw [hpool, Function.update_of_ne hlk] at hl
      exact absurd (hp l ((hA t).owner l hl)) hlk
  · have hin' : t ∈ (s.threadPool l).joinCv := by
      by_cases hlk : l = k
      · subst hlk
        rw [hpool, Function.update_self] at hin
        exact hsub.subset hin
      · rwa [hpool, Function.update_of_ne hlk] at hin
    exact absurd ((hA t).queued l (hsize ▸ hl) hin').1 (hwaits l)

/-- **A step that writes a slot whose mutex the thread holds**, and keeps the mutex. -/
lemma Queued.hold (hpc : pc t = p) (hp : p.holds = some k) (hp' : p'.holds = some k)
    (hpool : s'.threadPool = Function.update s.threadPool k d) (hsize : s'.size = s.size)
    (htids : s'.tids = s.tids) (hreject : s'.reject = s.reject)
    (hwl : s'.writerLocked = s.writerLocked) (hdm : d.m = (s.threadPool k).m)
    (hsub : d.joinCv.Sublist (s.threadPool k).joinCv) (hwaits : ∀ l, ¬ p.Waits l)
    (hwrites : ¬ p.Writes) (hsees : p'.Sees s' t) : Queued s' w t p' pc := by
  have hm := held_of_pc hbase hpc hp
  refine Queued.touch hbase h hA ht hpool hsize htids hreject hwl (.inr hm)
    (.inr ⟨hdm.trans hm, hp'⟩) hsub (fun l hl => ?_) (hpc ▸ hwaits) (hpc ▸ hwrites) hsees
  rw [hpc, hp] at hl
  exact (Option.some.inj hl).symm

/-- The thread takes the head of the queue off, and wakes it up. -/
lemma queues_signal {st : ℤ} {v : ℕ} {q : List ℕ} (hpc : pc t = .exit st (.signal k))
    (hq : (s.threadPool k).joinCv = v :: q) :
    Queued { s.setThread k { s.threadPool k with joinCv := q } with
      reject := Function.update s.reject v true } w t (.exit st (.wake k v)) pc := by
  have hk : k < s.size := size_of_pc hbase hpc rfl
  have hm : (s.threadPool k).m = some t := held_of_pc hbase hpc rfl
  have hnodup := h.nodup k hk
  rw [hq] at hnodup
  obtain ⟨hv, hnq⟩ := List.nodup_cons.mp hnodup
  have hwait := ((hA v).queued k hk (by rw [hq]; exact .head q)).1
  have hvt : v ≠ t := by
    rintro rfl
    rw [hpc] at hwait
    exact hwait
  have hother : ∀ l, l < s.size → v ∈ (s.threadPool l).joinCv → l = k := by
    intro l hl hin
    have hwait' := ((hA v).queued l hl hin).1
    cases hp : pc v with
    | join tid j => cases j <;> rw [hp] at hwait hwait' <;>
        first | exact hwait'.elim | exact hwait'.symm.trans hwait
    | _ => rw [hp] at hwait; exact hwait.elim
  set s' : ThrLib := { s.setThread k { s.threadPool k with joinCv := q } with
    reject := Function.update s.reject v true } with hs'
  have hpool : s'.threadPool =
      Function.update s.threadPool k { s.threadPool k with joinCv := q } := rfl
  have hsub : q.Sublist (s.threadPool k).joinCv := by
    rw [hq]
    exact List.sublist_cons_self v q
  -- the steps that do not set a flag, and then the flag of the thread that leaves the queue
  have hrest : Queued { s' with reject := s.reject } w t (.exit st (.wake k v)) pc :=
    Queued.touch hbase h hA ht (k := k) hpool rfl rfl rfl rfl (.inr hm) (.inr ⟨hm, rfl⟩) hsub
      (by rw [hpc]; rintro l ⟨⟩; rfl) (by rw [hpc]; exact fun _ => id) (by rw [hpc]; exact id)
      trivial
  obtain ⟨hI, hown, hothers⟩ := hrest
  have hflag : ∀ u, u ≠ v → s'.reject u = s.reject u := fun u hu => Function.update_of_ne hu ..
  refine ⟨⟨hI.nodup, hI.writer⟩, ⟨hown.inside, hown.owner, fun l hl hin => ?_, hown.sees,
    hown.writer⟩, fun u hu => ⟨(hothers u hu).inside, (hothers u hu).owner, fun l hl hin => ?_,
      (hothers u hu).sees, (hothers u hu).writer⟩⟩
  · rw [hflag t hvt.symm]
    exact hown.queued l hl hin
  · by_cases huv : u = v
    · -- it is in no queue any more
      subst huv
      exfalso
      by_cases hlk : l = k
      · subst hlk
        rw [hpool, Function.update_self] at hin
        exact hv hin
      · rw [hpool, Function.update_of_ne hlk] at hin
        exact hlk (hother l hl hin)
    · rw [hflag u huv]
      exact (hothers u hu).queued l hl hin

/-- The thread goes to the end of the queue and gives the mutex back. -/
lemma queues_wait {tid : ℤ} (hpc : pc t = .join tid (.test k)) :
    Queued { s.setThread k { s.threadPool k with
        pendingJoin := true, joinCv := (s.threadPool k).joinCv ++ [t], m := none } with
      reject := Function.update s.reject t false } w t (.join tid (.wait k .test)) pc := by
  have hk : k < s.size := size_of_pc hbase hpc rfl
  have hm : (s.threadPool k).m = some t := held_of_pc hbase hpc rfl
  have hfree : ∀ l, l < s.size → t ∉ (s.threadPool l).joinCv := by
    intro l hl hin
    have hwait := ((hA t).queued l hl hin).1
    rw [hpc] at hwait
    exact hwait
  set s' : ThrLib := { s.setThread k { s.threadPool k with
      pendingJoin := true, joinCv := (s.threadPool k).joinCv ++ [t], m := none } with
    reject := Function.update s.reject t false } with hs'
  have hpool : s'.threadPool = Function.update s.threadPool k { s.threadPool k with
      pendingJoin := true, joinCv := (s.threadPool k).joinCv ++ [t], m := none } := rfl
  refine ⟨⟨fun l hl => ?_, h.writer⟩, ⟨fun _ => ht, fun l hl => ?_, fun l hl hin => ?_, trivial,
    fun hw hl => ?_⟩, fun u hu => (hA u).stable (QueueRely.write hpool rfl rfl rfl (.inr hm)
      (.inl rfl) hu (Function.update_of_ne hu ..) fun hin => ?_)
      fun l hl => mutex_of_holds hbase hl⟩
  · rw [hpool]
    by_cases hlk : l = k
    · subst hlk
      rw [Function.update_self, List.nodup_append]
      refine ⟨h.nodup l hl, List.nodup_singleton t, fun a ha b hb => ?_⟩
      obtain rfl := List.mem_singleton.mp hb
      exact fun hab => hfree l hl (hab ▸ ha)
    · rw [Function.update_of_ne hlk]
      exact h.nodup l hl
  · exfalso
    by_cases hlk : l = k
    · subst hlk
      rw [hpool, Function.update_self] at hl
      cases hl
    · rw [hpool, Function.update_of_ne hlk] at hl
      have hown := (hA t).owner l hl
      rw [hpc] at hown
      exact hlk (Option.some.inj hown).symm
  · refine ⟨?_, Function.update_self ..⟩
    by_cases hlk : l = k
    · exact hlk.symm
    · rw [hpool, Function.update_of_ne hlk] at hin
      exact absurd hin (hfree l hl)
  · have hwrites := (hA t).writer hw hl
    rw [hpc] at hwrites
    exact hwrites
  · rcases List.mem_append.mp hin with hin | hin
    · exact hin
    · exact absurd (List.mem_singleton.mp hin) hu

/-- The thread writes over its flag: it has been set, so the thread is in no queue. -/
lemma queues_forget {tid : ℤ} (hpc : pc t = .join tid (.wait k .exchange))
    (hreject : s.reject t = true) :
    Queued { s with reject := Function.update s.reject t false } w t
      (.join tid (.wait k .test)) pc := by
  refine ⟨⟨h.nodup, h.writer⟩, ⟨fun _ => ht, fun l hl => ?_, fun l hl hin => ?_, trivial,
    fun hw hl => ?_⟩, fun u hu => (hA u).stable ⟨fun _ => id, fun _ => id, fun l hl hin =>
      ⟨hl, hin, Function.update_of_ne hu ..⟩, fun _ _ => rfl, fun hw hl => ⟨hw, hl⟩⟩
      fun l hl => mutex_of_holds hbase hl⟩
  · have hown := (hA t).owner l hl
    rw [hpc] at hown
    cases hown
  · have hflag := ((hA t).queued l hl hin).2
    rw [hreject] at hflag
    cases hflag
  · have hwrites := (hA t).writer hw hl
    rw [hpc] at hwrites
    exact hwrites.elim

/-- The thread puts a new slot at the end of the pool. -/
lemma queues_add {d : ℕ} {esp : BitVec 32} (hpc : pc t = .create (.add d esp)) (pending : Bool)
    (st : ℤ) : Queued
      { s.setThread s.size ⟨pending, d, .alive, st, [], none, esp⟩ with size := s.size + 1 } w t
      (.create .addUnlock) pc := by
  set s' : ThrLib :=
    { s.setThread s.size ⟨pending, d, .alive, st, [], none, esp⟩ with size := s.size + 1 } with hs'
  have hself : s'.threadPool s.size = ⟨pending, d, .alive, st, [], none, esp⟩ :=
    Function.update_self ..
  have hof : ∀ l, l ≠ s.size → s'.threadPool l = s.threadPool l :=
    fun l hl => Function.update_of_ne hl ..
  -- the mutexes and the queues are those of the old slots
  have howner : ∀ l u, (s'.threadPool l).m = some u → (s.threadPool l).m = some u := by
    intro l u hl
    by_cases hls : l = s.size
    · rw [hls, hself] at hl
      cases hl
    · rwa [hof l hls] at hl
  have hqueue : ∀ l u, l < s'.size → u ∈ (s'.threadPool l).joinCv →
      l < s.size ∧ u ∈ (s.threadPool l).joinCv := by
    intro l u hl hin
    by_cases hls : l = s.size
    · rw [hls, hself] at hin
      cases hin
    · rw [hof l hls] at hin
      exact ⟨by change l < s.size + 1 at hl; omega, hin⟩
  obtain ⟨g, hS, -⟩ : ∃ gs, SlotInv s gs ∧ ∀ u, SlotAssert s gs u (pc u) := id hbase
  refine ⟨⟨fun l hl => ?_, h.writer⟩, ⟨fun _ => ht, fun l hl => ?_, fun l hl hin => ?_, trivial,
    fun _ _ => trivial⟩, fun u hu => (hA u).stable ⟨fun _ => id, fun l hl => howner l u hl,
      fun l hl hin => ?_, fun l hl => hof l ?_, fun hw hl => ⟨hw, hl⟩⟩
      fun l hl => mutex_of_holds hbase hl⟩
  · by_cases hls : l = s.size
    · rw [hls, hself]
      exact List.nodup_nil
    · rw [hof l hls]
      exact h.nodup l (by change l < s.size + 1 at hl; omega)
  · have hown := (hA t).owner l (howner l t hl)
    rw [hpc] at hown
    exact hown
  · obtain ⟨hl', hin'⟩ := hqueue l t hl hin
    have hq := ((hA t).queued l hl' hin').1
    rw [hpc] at hq
    exact hq.elim
  · obtain ⟨hl', hin'⟩ := hqueue l u hl hin
    exact ⟨hl', hin', rfl⟩
  · rintro rfl
    rw [(hS.beyond s.size le_rfl).2.2] at hl
    cases hl

/-- **The steps of a thread** keep the state annotated. -/
theorem thrMove_queued (hpc : pc t = p) (hs : ThrMove s t p a s' p') :
    ∃ w', Queued s' w' t p' pc := by
  cases hs with
  | thrExit st =>
      refine ⟨w, ?_⟩
      have hcalm : Queued s w t (.exit st .lock) pc := Queued.calm hbase h hA ht (.refl s)
        (by rw [hpc]; exact fun _ => id) (by rw [hpc]; exact fun _ hw => hw.elim) trivial
        (by rw [hpc]; exact id)
      obtain ⟨hI, hown, hothers⟩ := hcalm
      refine ⟨⟨hI.nodup, hI.writer⟩, ⟨fun _ => ht, hown.owner, hown.queued, trivial, hown.writer⟩,
        fun u hu => (hothers u hu).stable ⟨fun _ => id, fun _ => id, fun l hl hin => ⟨hl, hin, rfl⟩,
          fun _ _ => rfl, fun hw hl => ⟨hw, hl⟩⟩ fun l hl => mutex_of_holds hbase hl⟩
  | thrJoin tid =>
      exact ⟨w, Queued.calm hbase h hA ht (.refl s) (by rw [hpc]; exact fun _ => id)
        (by rw [hpc]; exact fun _ hw => hw.elim) trivial (by rw [hpc]; exact id)⟩
  | calm hcalm _ hp =>
      -- a step outside the joins touches no queue
      refine ⟨w, Queued.calm hbase h hA ht hcalm ?_ ?_ ?_ (hpc ▸ hp.writes)⟩
      · rw [hpc, hp.holds]
        exact fun _ => id
      · rw [hpc]
        intro k hw
        cases p with
        | join tid q => exact absurd trivial hp.joining
        | _ => exact hw.elim
      · have hsharp := hp.sharp
        have hjoin := hp.joining'
        cases p' with
        | join tid q => exact absurd trivial hjoin
        | create q => cases q <;> first | trivial | exact absurd trivial hsharp
        | exit st q => cases q <;> first | trivial | exact absurd trivial hsharp
        | _ => trivial
  | addLock d esp hw =>
      -- the thread is the last writer
      refine ⟨some t, ⟨h.nodup, fun _ => ⟨t, rfl⟩⟩, ⟨fun _ => ht, fun l hl => ?_,
        fun l hl hin => ?_, trivial, fun _ _ => trivial⟩,
        fun u hu => (hA u).stable ⟨fun _ => id, fun _ => id,
          fun l hl hin => ⟨hl, hin, rfl⟩, fun _ _ => rfl, fun hw' _ => ?_⟩
          fun l hl => mutex_of_holds hbase hl⟩
      · have hown := (hA t).owner l hl
        rw [hpc] at hown
        exact hown
      · have hq := ((hA t).queued l hl hin).1
        rw [hpc] at hq
        exact hq.elim
      · exact absurd (Option.some.inj hw').symm hu
  | add d esp pending st =>
      exact ⟨w, queues_add hbase h hA ht hpc pending st⟩
  | addUnlock =>
      refine ⟨w, ?_⟩
      have hcalm := rwlockUnlock_calm s
      -- the write lock is free again, and no queue changed
      have hfree := rwlockUnlock_writer s
      refine ⟨⟨fun k hk => ?_, fun hl => ?_⟩, ⟨fun hu => absurd rfl hu, fun k hk => ?_,
        fun k hk hin => ?_, trivial, fun _ hl => ?_⟩, fun u hu => (hA u).stable ⟨fun v hv => ?_,
          fun k hk => ?_, fun k hk hin => ?_, fun k _ => congrFun hcalm.pool k, fun _ hl => ?_⟩
          fun k hk => mutex_of_holds hbase hk⟩
      · rw [hcalm.size] at hk
        rw [hcalm.pool]
        exact h.nodup k hk
      · rw [hfree] at hl
        cases hl
      · rw [hcalm.pool] at hk
        have hown := (hA t).owner k hk
        rw [hpc] at hown
        exact hown
      · rw [hcalm.size] at hk
        rw [hcalm.pool] at hin
        have hq := ((hA t).queued k hk hin).1
        rw [hpc] at hq
        exact hq.elim
      · rw [hfree] at hl
        cases hl
      · rw [hcalm.tids]
        exact hv
      · rwa [hcalm.pool] at hk
      · rw [hcalm.size] at hk
        rw [hcalm.pool] at hin
        exact ⟨hk, hin, congrFun hcalm.reject u⟩
      · rw [hfree] at hl
        cases hl
  -- the child is in no queue and holds nothing
  | fork found esp d hd hp' =>
      refine ⟨w, ⟨h.nodup, h.writer⟩, ⟨fun _ => .tail d ht, fun l hl => ?_, fun l hl hin => ?_,
        ?_, fun hw hl => ?_⟩, fun u hu => (hA u).stable ⟨fun v hv => .tail d hv, fun _ => id,
          fun l hl hin => ⟨hl, hin, rfl⟩, fun _ _ => rfl, fun hw hl => ⟨hw, hl⟩⟩
          fun l hl => mutex_of_holds hbase hl⟩
      · have hown := (hA t).owner l hl
        rw [hpc] at hown
        cases hown
      · have hq := ((hA t).queued l hl hin).1
        rw [hpc] at hq
        exact hq.elim
      · rcases hp' with rfl | ⟨k, rfl⟩ <;> trivial
      · have hwrites := (hA t).writer hw hl
        rw [hpc] at hwrites
        exact hwrites.elim
  | lock k hm hp =>
      have hk : k < s.size := by cases hp <;> exact size_of_pc hbase hpc rfl
      refine ⟨w, Queued.touch hbase h hA ht (k := k) rfl rfl rfl rfl rfl (.inl hm)
        (.inr ⟨rfl, by cases hp <;> rfl⟩) (List.Sublist.refl _) ?_ ?_ ?_ ?_⟩ <;> try rw [hpc]
      · cases hp <;> exact nofun
      · cases hp <;> exact fun _ => id
      · cases hp <;> exact id
      · cases hp <;> trivial
  | again k hm =>
      -- the thread holds the mutex that it waits for
      rw [held_of_pc hbase hpc rfl] at hm
      cases hm
  -- taking or giving up a mutex leaves its queue as it is
  | unlock k hp =>
      have hm : (s.threadPool k).m = some t := by cases hp <;> exact held_of_pc hbase hpc rfl
      refine ⟨w, Queued.touch hbase h hA ht (k := k) rfl rfl rfl rfl rfl (.inr hm) (.inl rfl)
        (List.Sublist.refl _) ?_ ?_ ?_ ?_⟩ <;> try rw [hpc]
      · cases hp <;> (rintro l ⟨⟩; rfl)
      · cases hp <;> exact fun _ => id
      · cases hp <;> exact id
      · cases hp <;> trivial
  -- a resurrected slot gets an empty queue
  | claim k hd =>
      exact ⟨w, Queued.hold hbase h hA ht hpc rfl rfl rfl rfl rfl rfl rfl rfl
        (List.nil_sublist _) (fun _ => id) id trivial⟩
  | revert k =>
      exact ⟨w, Queued.hold hbase h hA ht hpc rfl rfl rfl rfl rfl rfl rfl rfl
        (List.Sublist.refl _) (fun _ => id) id (by simp)⟩
  | name k d =>
      exact ⟨w, Queued.hold hbase h hA ht hpc rfl rfl rfl rfl rfl rfl rfl rfl
        (List.Sublist.refl _) (fun _ => id) id trivial⟩
  | mark st k =>
      exact ⟨w, Queued.hold hbase h hA ht hpc rfl rfl rfl rfl rfl rfl rfl rfl
        (List.Sublist.refl _) (fun _ => id) id trivial⟩
  | save st k =>
      have hknows : (ThrPc.exit st (.save k)).Knows s t := knows_of_pc hbase hpc
      refine ⟨w, Queued.hold hbase h hA ht hpc rfl rfl rfl rfl rfl rfl rfl rfl
        (List.Sublist.refl _) (fun _ => id) id ?_⟩
      simpa using hknows
  | signalNone st k hq =>
      exact ⟨w, Queued.calm hbase h hA ht (.refl s) (by rw [hpc]; exact fun _ => id)
        (by rw [hpc]; exact fun _ hw => hw.elim) trivial (by rw [hpc]; exact id)⟩
  | signal st k v q hq => exact ⟨w, queues_signal hbase h hA ht hpc hq⟩
  | wake st k v =>
      have hcalm : Calm s { s with waiting := Function.update s.waiting v false } :=
        ⟨rfl, rfl, rfl, rfl, rfl, rfl, id⟩
      exact ⟨w, Queued.calm hbase h hA ht hcalm (by rw [hpc]; exact fun _ => id)
        (by rw [hpc]; exact fun _ hw _ => hw) trivial (by rw [hpc]; exact id)⟩
  | look tid hcalm _ hq =>
      refine ⟨w, Queued.calm hbase h hA ht hcalm ?_ ?_ ?_ (by rw [hpc]; exact id)⟩ <;> try rw [hpc]
      · cases hq <;> exact fun _ => id
      · intro k hw hr
        cases hq with
        | woken l hreject =>
            rw [hr] at hreject
            cases hreject
        | unwoken l _ | exchange l _ | wakes l _ => exact hw
        | _ => exact hw.elim
      · cases hq <;> trivial
  | wait tid k halive hpend => exact ⟨w, queues_wait hbase h hA ht hpc⟩
  | forget tid k hreject => exact ⟨w, queues_forget hbase h hA ht hpc hreject⟩
  | sleep tid k =>
      have hcalm : Calm s { s with waiting := Function.update s.waiting t true } :=
        ⟨rfl, rfl, rfl, rfl, rfl, rfl, id⟩
      exact ⟨w, Queued.calm hbase h hA ht hcalm (by rw [hpc]; exact fun _ => id)
        (by rw [hpc]; exact fun _ hw _ => hw) trivial (by rw [hpc]; exact id)⟩
  | clear tid k st =>
      exact ⟨w, Queued.hold hbase h hA ht hpc rfl rfl rfl rfl rfl rfl rfl rfl
        (List.Sublist.refl _) (fun _ => id) id (by simp)⟩
  | reap tid k st =>
      have hsees := (hA t).sees
      rw [hpc] at hsees
      refine ⟨w, Queued.hold hbase h hA ht hpc rfl rfl rfl rfl rfl rfl rfl rfl
        (List.Sublist.refl _) (fun _ => id) id ?_⟩
      simpa using hsees
  | unname tid k st =>
      exact ⟨w, Queued.hold hbase h hA ht hpc rfl rfl rfl rfl rfl rfl rfl rfl
        (List.Sublist.refl _) (fun _ => id) id trivial⟩
  | finish tid k st =>
      refine ⟨w, Queued.touch hbase h hA ht (k := k) rfl rfl rfl rfl rfl
        (.inr (held_of_pc hbase hpc rfl)) (.inl rfl) (List.Sublist.refl _) ?_ ?_ ?_ trivial⟩ <;>
          rw [hpc]
      · rintro l ⟨⟩
        rfl
      · exact fun _ => id
      · exact id

end steps

/-! ### Runs -/

/-- When `thr_init` returns, no mutex is held and nobody waits. -/
lemma queued_init (h : thrLib.init c) : Threads.Annotated QueueInv QueueAssert c := by
  obtain ⟨⟨main, h⟩, hpc⟩ := h
  have hslot : ∀ k, (c.1.threadPool k).m = none ∧
      (k < c.1.size → (c.1.threadPool k).joinCv = []) := by
    intro k
    rcases Nat.eq_zero_or_pos k with rfl | hk
    · exact ⟨h.mutex, fun _ => h.joinCv⟩
    · refine ⟨(h.beyond k hk).2.2, fun hlt => ?_⟩
      rw [h.size] at hlt
      omega
  refine ⟨none, ⟨fun k hk => ?_, fun hw => ?_⟩, fun t => ?_⟩
  · rw [(hslot k).2 hk]
    exact List.nodup_nil
  · rw [h.writer] at hw
    cases hw
  · rw [hpc t]
    refine ⟨fun hn => absurd rfl hn, fun k hk => ?_, fun k hk hin => ?_, trivial, nofun⟩
    · rw [(hslot k).1] at hk
      cases hk
    · rw [(hslot k).2 hk] at hin
      cases hin

variable {G : ThrLib × (ℕ → ThrPc) → ℕ × ThrAct → Prop}

/-- **Every reachable state is annotated.** -/
theorem queued_of_reach (h : thrLib.machine.Reach G c) :
    Threads.Annotated QueueInv QueueAssert c := by
  have hbase := h.with fun _ => slotted_of_reach
  refine Threads.annotated_of_reach (fun _ => queued_init) ?_ hbase
  intro s pc w t a s' p' hI hA hG hs
  obtain ⟨ht, hmove⟩ := thrMove_of_next hs
  exact thrMove_queued hG.2 hI hA ht rfl hmove

/-! ### Who can go on -/

/-- The thread can take a step. -/
def CanStep (c : ThrLib × (ℕ → ThrPc)) (t : ℕ) : Prop := ∃ a c', thrLib.next c (t, a) = some c'

lemma canStep_of_next {r : ThrLib × ThrPc} (h : thrNext c.1 t (c.2 t) a = some r) :
    CanStep c t := by
  refine ⟨a, (r.1, Function.update c.2 t r.2), ?_⟩
  change (thrNext c.1 t (c.2 t) a).map _ = _
  rw [h]
  rfl

section canStep

variable (hqueue : Threads.Annotated QueueInv QueueAssert c)

include hqueue

/-- A thread that is in a call has been forked. -/
lemma mem_tids_of_pc (hp : c.2 t ≠ .user) : t ∈ c.1.tids := by
  obtain ⟨w, -, hA⟩ := hqueue
  exact (hA t).inside hp

/-- The thread that a mutex names is in its critical section. -/
lemma holds_of_mutex (hm : (c.1.threadPool k).m = some t) : (c.2 t).holds = some k := by
  obtain ⟨w, -, hA⟩ := hqueue
  exact (hA t).owner k hm

/-- **A thread that holds a mutex can go on**, unless it waits for that very mutex. -/
lemma canStep_of_holds (hp : (c.2 t).holds = some k) (hagain : c.2 t ≠ .create (.revertAgain k)) :
    CanStep c t := by
  have hin : t ∈ c.1.tids := mem_tids_of_pc hqueue (by rintro heq; rw [heq] at hp; cases hp)
  have hnext : ∃ r, thrNext c.1 t (c.2 t) .run = some r := by
    unfold thrNext
    rw [if_pos hin]
    cases hpc : c.2 t with
    | user | vanished => rw [hpc] at hp; cases hp
    | create q =>
        rw [hpc] at hp hagain
        cases q with
        | check l =>
            simp only [createNext]
            split_ifs <;> exact ⟨_, rfl⟩
        | giveUp l | claimed l _ | tidSet l _ | tidUnlock l | revert l => exact ⟨_, rfl⟩
        | revertAgain l =>
            obtain rfl := Option.some.inj hp
            exact absurd rfl hagain
        | _ => cases hp
    | exit st q =>
        rw [hpc] at hp
        cases q with
        | signal l =>
            simp only [exitNext]
            split <;> exact ⟨_, rfl⟩
        | mark l | save l | wake l _ | unlock l => exact ⟨_, rfl⟩
        | _ => cases hp
    | join tid q =>
        rw [hpc] at hp
        cases q with
        | enter l | test l =>
            simp only [joinNext]
            split_ifs <;> exact ⟨_, rfl⟩
        | refuse l | save l | clear l _ | reap l _ | unname l _ | unlock l _ => exact ⟨_, rfl⟩
        | _ => cases hp
  obtain ⟨r, hr⟩ := hnext
  exact canStep_of_next hr

/-- **A thread that has locked the pool as a writer can go on.** -/
lemma canStep_of_writes (hp : (c.2 t).Writes) : CanStep c t := by
  have hin : t ∈ c.1.tids := mem_tids_of_pc hqueue (by rintro heq; rw [heq] at hp; exact hp)
  have hnext : ∃ a r, thrNext c.1 t (c.2 t) a = some r := by
    cases hpc : c.2 t with
    | create q =>
        rw [hpc] at hp
        cases q with
        | add d esp =>
            refine ⟨.add false 0, ?_⟩
            unfold thrNext
            rw [if_pos hin]
            exact ⟨_, rfl⟩
        | addUnlock =>
            refine ⟨.run, ?_⟩
            unfold thrNext
            rw [if_pos hin]
            exact ⟨_, rfl⟩
        | _ => exact hp.elim
    | _ => rw [hpc] at hp; exact hp.elim
  obtain ⟨a, r, hr⟩ := hnext
  exact canStep_of_next hr

/-- A locked pool has a writer. -/
lemma exists_writes (hw : c.1.writerLocked = true) : ∃ v, (c.2 v).Writes := by
  obtain ⟨w, hI, hA⟩ := hqueue
  obtain ⟨v, hv⟩ := hI.writer hw
  exact ⟨v, (hA v).writer hv hw⟩

end canStep

end ShrekOS
