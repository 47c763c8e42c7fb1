/-
The steps of the thread library as a relation: what each of them reads and writes.

* `Calm`, `ThrPc.Aside`: a step of `thr_create` or `thr_exit` that writes no slot;
* `ThrPc.Locks`, `ThrPc.Unlocks`, `ThrPc.Looks`: the steps that take a mutex, that give it
  back, and those of `thr_join` that only read;
* `ThrMove`: **all steps**, and `thrMove_of_next`: every step of a thread is one of them.
-/
import ShrekOS.User.ThreadSteps

namespace ShrekOS

open Kit

namespace ThrPc

/-- The thread has locked the pool as a writer. -/
@[simp] def Writes : ThrPc → Prop
  | .create (.add _ _) | .create .addUnlock => True
  | _ => False

/-- The thread waits in the queue of the slot. -/
@[simp] def Waits (k : ℕ) : ThrPc → Prop
  | .join _ (.wait l _) => l = k
  | _ => False

/-- The thread has taken the head off the queue of its slot, if there was one. -/
@[simp] def Popped : ThrPc → Prop
  | .exit _ (.wake _ _) | .exit _ (.unlock _) | .exit _ .release | .exit _ .vanish
  | .vanished => True
  | _ => False

/-- The thread is between the two lines of `cond_signal`. -/
@[simp] def Waking : ThrPc → Prop
  | .exit _ (.wake _ _) => True
  | _ => False

/-- The thread is in `thr_join`. -/
@[simp] def Joining : ThrPc → Prop
  | .join _ _ => True
  | _ => False

/-- The thread is about to signal, or has given back a slot. -/
@[simp] def Sharp : ThrPc → Prop
  | .exit _ (.signal _) | .create (.revertAgain _) => True
  | _ => False

/-- A step of `thr_create` or `thr_exit` that takes nothing in hand and puts nothing down. -/
structure Aside (p p' : ThrPc) : Prop where
  joining : ¬ p.Joining
  joining' : ¬ p'.Joining
  holds : p'.holds = p.holds
  child : p'.child = p.child
  writes : ¬ p.Writes
  popped : p'.Popped ↔ p.Popped
  sharp : ¬ p'.Sharp
  waking : ¬ p.Waking

/-- A step that takes the mutex of the slot. -/
inductive Locks (k : ℕ) : ThrPc → ThrPc → Prop where
  | take : Locks k (.create (.take k)) (.create (.check k))
  | tidTake (d : ℕ) : Locks k (.create (.tidTake k d)) (.create (.tidSet k d))
  | revertTake : Locks k (.create (.revertTake k)) (.create (.revert k))
  | exit (st : ℤ) : Locks k (.exit st (.take k)) (.exit st (.mark k))
  | enter (tid : ℤ) : Locks k (.join tid (.take k)) (.join tid (.enter k))
  | relock (tid : ℤ) : Locks k (.join tid (.relock k)) (.join tid (.test k))

/-- A step that gives the mutex of the slot back. -/
inductive Unlocks (k : ℕ) : ThrPc → ThrPc → Prop where
  | giveUp : Unlocks k (.create (.giveUp k)) (.create (.scan 0))
  | claimed (esp : BitVec 32) :
      Unlocks k (.create (.claimed k esp)) (.create (.release (some k) esp))
  | tidUnlock : Unlocks k (.create (.tidUnlock k)) .user
  | exit (st : ℤ) : Unlocks k (.exit st (.unlock k)) (.exit st .release)
  | refuse (tid : ℤ) : Unlocks k (.join tid (.refuse k)) .user

/-- A step of `thr_join` that only reads, with what it has read. -/
inductive Looks (s : ThrLib) (t : ℕ) (tid : ℤ) : JoinPc → ThrPc → Prop where
  | lock : Looks s t tid .lock (.join tid (.scan 0))
  | found (k : ℕ) : k < s.size → (s.threadPool k).kTid = tid →
      Looks s t tid (.scan k) (.join tid (.release k))
  | next (k : ℕ) : k < s.size → (s.threadPool k).kTid ≠ tid →
      Looks s t tid (.scan k) (.join tid (.scan (k + 1)))
  | missed (k : ℕ) : s.size ≤ k → Looks s t tid (.scan k) (.join tid .giveUp)
  | giveUp : Looks s t tid .giveUp .user
  | release (k : ℕ) : Looks s t tid (.release k) (.join tid (.take k))
  | dead (k : ℕ) : (s.threadPool k).status = .dead →
      Looks s t tid (.enter k) (.join tid (.refuse k))
  | enter (k : ℕ) : (s.threadPool k).status ≠ .dead →
      Looks s t tid (.enter k) (.join tid (.test k))
  | pending (k : ℕ) : (s.threadPool k).status = .alive → (s.threadPool k).pendingJoin = true →
      Looks s t tid (.test k) (.join tid (.refuse k))
  | pass (k : ℕ) : (s.threadPool k).status ≠ .alive →
      Looks s t tid (.test k) (.join tid (.save k))
  | woken (k : ℕ) : s.reject t = true → Looks s t tid (.wait k .test) (.join tid (.relock k))
  | unwoken (k : ℕ) : s.reject t = false →
      Looks s t tid (.wait k .test) (.join tid (.wait k .exchange))
  | exchange (k : ℕ) : s.reject t = false →
      Looks s t tid (.wait k .exchange) (.join tid (.wait k .deschedule))
  | wakes (k : ℕ) : s.waiting t = false →
      Looks s t tid (.wait k .asleep) (.join tid (.wait k .test))
  | save (k : ℕ) : Looks s t tid (.save k) (.join tid (.clear k (s.threadPool k).exitStatus))

end ThrPc

/-- The step writes no slot and no `reject`; the lock of the pool may be taken as a reader, or
given back. -/
structure Calm (s s' : ThrLib) : Prop where
  pool : s'.threadPool = s.threadPool
  size : s'.size = s.size
  tids : s'.tids = s.tids
  exited : s'.exited = s.exited
  joined : s'.joined = s.joined
  reject : s'.reject = s.reject
  writer : s'.writerLocked = true → s.writerLocked = true

/-- **The steps of thread `t`.** -/
inductive ThrMove (s : ThrLib) (t : ℕ) : ThrPc → ThrAct → ThrLib → ThrPc → Prop where
  | thrExit (st : ℤ) : ThrMove s t .user (.thrExit st)
      { s with exited := Function.update s.exited t (some st) } (.exit st .lock)
  | thrJoin (tid : ℤ) : ThrMove s t .user (.thrJoin tid) s (.join tid .lock)
  | calm {p p' : ThrPc} {a : ThrAct} {s' : ThrLib} : Calm s s' → s'.waiting = s.waiting →
      p.Aside p' → ThrMove s t p a s' p'
  | addLock (d : ℕ) (esp : BitVec 32) : s.writerLocked = false →
      ThrMove s t (.create (.addLock d esp)) .run { s with writerLocked := true }
        (.create (.add d esp))
  | add (d : ℕ) (esp : BitVec 32) (pending : Bool) (st : ℤ) :
      ThrMove s t (.create (.add d esp)) (.add pending st)
        { s.setThread s.size ⟨pending, d, .alive, st, [], none, esp⟩ with size := s.size + 1 }
        (.create .addUnlock)
  | addUnlock : ThrMove s t (.create .addUnlock) .run s.rwlockUnlock .user
  | fork (found : Option ℕ) (esp : BitVec 32) (d : ℕ) {p' : ThrPc} : d ∉ s.tids →
      p' = .create (.addLock d esp) ∨ (∃ k, p' = .create (.tidTake k d)) →
      ThrMove s t (.create (.fork found esp)) (.fork d)
        { s with tids := d :: s.tids, top := Function.update s.top d esp } p'
  | lock (k : ℕ) {p p' : ThrPc} : (s.threadPool k).m = none → p.Locks k p' →
      ThrMove s t p .run (s.setThread k { s.threadPool k with m := some t }) p'
  | again (k : ℕ) : (s.threadPool k).m = none →
      ThrMove s t (.create (.revertAgain k)) .run
        (s.setThread k { s.threadPool k with m := some t }) .user
  | unlock (k : ℕ) {p p' : ThrPc} : p.Unlocks k p' → ThrMove s t p .run (s.mutexUnlock k) p'
  | claim (k : ℕ) : (s.threadPool k).status = .dead → ThrMove s t (.create (.check k)) .run
      (s.setThread k { s.threadPool k with joinCv := [], status := .alive })
      (.create (.claimed k (s.threadPool k).stackTop))
  | revert (k : ℕ) : ThrMove s t (.create (.revert k)) .run
      (s.setThread k { s.threadPool k with status := .dead }) (.create (.revertAgain k))
  | name (k d : ℕ) : ThrMove s t (.create (.tidSet k d)) .run
      (s.setThread k { s.threadPool k with kTid := d }) (.create (.tidUnlock k))
  | mark (st : ℤ) (k : ℕ) : ThrMove s t (.exit st (.mark k)) .run
      (s.setThread k { s.threadPool k with status := .zombie }) (.exit st (.save k))
  | save (st : ℤ) (k : ℕ) : ThrMove s t (.exit st (.save k)) .run
      (s.setThread k { s.threadPool k with exitStatus := st }) (.exit st (.signal k))
  | signalNone (st : ℤ) (k : ℕ) : (s.threadPool k).joinCv = [] →
      ThrMove s t (.exit st (.signal k)) .run s (.exit st (.unlock k))
  | signal (st : ℤ) (k w : ℕ) (q : List ℕ) : (s.threadPool k).joinCv = w :: q →
      ThrMove s t (.exit st (.signal k)) .run
        { s.setThread k { s.threadPool k with joinCv := q } with
          reject := Function.update s.reject w true } (.exit st (.wake k w))
  | wake (st : ℤ) (k w : ℕ) : ThrMove s t (.exit st (.wake k w)) .run
      { s with waiting := Function.update s.waiting w false } (.exit st (.unlock k))
  | look (tid : ℤ) {q : JoinPc} {p' : ThrPc} {s' : ThrLib} : Calm s s' → s'.waiting = s.waiting →
      ThrPc.Looks s t tid q p' → ThrMove s t (.join tid q) .run s' p'
  | wait (tid : ℤ) (k : ℕ) : (s.threadPool k).status = .alive →
      (s.threadPool k).pendingJoin = false → ThrMove s t (.join tid (.test k)) .run
        { s.setThread k { s.threadPool k with
            pendingJoin := true, joinCv := (s.threadPool k).joinCv ++ [t], m := none } with
          reject := Function.update s.reject t false } (.join tid (.wait k .test))
  | forget (tid : ℤ) (k : ℕ) : s.reject t = true →
      ThrMove s t (.join tid (.wait k .exchange)) .run
        { s with reject := Function.update s.reject t false } (.join tid (.wait k .test))
  | sleep (tid : ℤ) (k : ℕ) : ThrMove s t (.join tid (.wait k .deschedule)) .run
      { s with waiting := Function.update s.waiting t true } (.join tid (.wait k .asleep))
  | clear (tid : ℤ) (k : ℕ) (st : ℤ) : ThrMove s t (.join tid (.clear k st)) .run
      (s.setThread k { s.threadPool k with pendingJoin := false }) (.join tid (.reap k st))
  | reap (tid : ℤ) (k : ℕ) (st : ℤ) : ThrMove s t (.join tid (.reap k st)) .run
      (s.setThread k { s.threadPool k with status := .dead }) (.join tid (.unname k st))
  | unname (tid : ℤ) (k : ℕ) (st : ℤ) : ThrMove s t (.join tid (.unname k st)) .run
      (s.setThread k { s.threadPool k with kTid := -1 }) (.join tid (.unlock k st))
  | finish (tid : ℤ) (k : ℕ) (st : ℤ) : ThrMove s t (.join tid (.unlock k st)) .run
      { s.mutexUnlock k with joined := (tid, st) :: s.joined } .user

variable {s s' : ThrLib} {t k : ℕ} {p p' : ThrPc} {a : ThrAct} {tid st : ℤ}

@[simp] lemma setThread_self (s : ThrLib) (k : ℕ) (c : ThreadT) :
    (s.setThread k c).threadPool k = c := Function.update_self ..

/-! ### Steps that write no slot -/

lemma Calm.refl (s : ThrLib) : Calm s s := ⟨rfl, rfl, rfl, rfl, rfl, rfl, id⟩

lemma rwlockRead_calm (hs : s.rwlockRead = some s') : Calm s s' := by
  unfold ThrLib.rwlockRead at hs
  split_ifs at hs
  obtain rfl := Option.some.inj hs
  exact ⟨rfl, rfl, rfl, rfl, rfl, rfl, id⟩

lemma rwlockRead_waiting (hs : s.rwlockRead = some s') : s'.waiting = s.waiting := by
  unfold ThrLib.rwlockRead at hs
  split_ifs at hs
  obtain rfl := Option.some.inj hs
  rfl

lemma rwlockUnlock_calm (s : ThrLib) : Calm s s.rwlockUnlock := by
  unfold ThrLib.rwlockUnlock
  split_ifs with hw
  · exact ⟨rfl, rfl, rfl, rfl, rfl, rfl, nofun⟩
  · exact ⟨rfl, rfl, rfl, rfl, rfl, rfl, id⟩

lemma rwlockUnlock_waiting (s : ThrLib) : s.rwlockUnlock.waiting = s.waiting := by
  unfold ThrLib.rwlockUnlock
  split_ifs <;> rfl

/-! ### What a place says -/

section place

variable {pc : ℕ → ThrPc} (hbase : Threads.Annotated SlotInv SlotAssert (s, pc))

include hbase

lemma size_of_pc (hpc : pc t = p) (hp : p.found = some k) : k < s.size := by
  refine found_lt (t := t) hbase ?_
  change (pc t).found = some k
  rw [hpc]
  exact hp

lemma held_of_pc (hpc : pc t = p) (hp : p.holds = some k) : (s.threadPool k).m = some t := by
  refine mutex_of_holds hbase ?_
  change (pc t).holds = some k
  rw [hpc]
  exact hp

/-- A slot whose mutex the thread holds is settled, but between two writes. -/
lemma settled_of_pc (hpc : pc t = p) (hp : p.holds = some k) (htorn : ¬ p.Torn) :
    s.Settled (s.threadPool k) := by
  obtain ⟨g, -, hA⟩ := hbase
  have h := (hA t).settled k
  change (pc t).holds = some k → ¬ (pc t).Torn → _ at h
  rw [hpc] at h
  exact h hp htorn

/-- What a thread knows of the slot that it has found. -/
lemma knows_of_pc (hpc : pc t = p) : p.Knows s t := by
  obtain ⟨g, -, hA⟩ := hbase
  have h : (pc t).Knows s t := (hA t).knows
  rwa [hpc] at h

/-- A slot that is claimed by a thread is alive and has no tid. -/
lemma claimed_of_pc (hpc : pc t = p) (hp : p.claims = some k) :
    (s.threadPool k).status = .alive ∧ (s.threadPool k).kTid = -1 := by
  refine slot_of_claims (t := t) hbase ?_
  change (pc t).claims = some k
  rw [hpc]
  exact hp

end place

/-! ### Every step is one of these -/

/-- A step of `thr_create` or `thr_exit` with empty hands. -/
lemma aside_idle (hj : ¬ p.Joining) (hj' : ¬ p'.Joining) (hh : p.holds = none)
    (hh' : p'.holds = none) (hc : p.child = none) (hc' : p'.child = none) (hw : ¬ p.Writes)
    (hpop : p'.Popped ↔ p.Popped) (hsharp : ¬ p'.Sharp) : p.Aside p' := by
  refine ⟨hj, hj', hh'.trans hh.symm, hc'.trans hc.symm, hw, hpop, hsharp, fun hwake => ?_⟩
  cases p with
  | exit st q => cases q <;> first | exact hwake | cases hh
  | _ => exact hwake

/-- The steps of `thr_create`. -/
lemma createMove_of_next {q : CreatePc} (hs : createNext s t q a = some (s', p')) :
    ThrMove s t (.create q) a s' p' := by
  -- most steps take no mutex and touch no queue
  have hidle : ∀ {q : CreatePc} {p' : ThrPc} {a : ThrAct} {s' : ThrLib}, Calm s s' →
      s'.waiting = s.waiting → ThrPc.holds (.create q) = none → p'.holds = none →
      ThrPc.child (.create q) = none → p'.child = none → ¬ p'.Joining →
      ¬ ThrPc.Writes (.create q) → ¬ p'.Popped → ¬ p'.Sharp →
      ThrMove s t (.create q) a s' p' :=
    fun hcalm hwait hh hh' hc hc' hj hw hpop hsharp =>
      .calm hcalm hwait (aside_idle id hj hh hh' hc hc' hw (iff_of_false hpop id) hsharp)
  cases a with
  | thrCreate | thrExit _ | thrJoin _ => cases q <;> cases hs
  | fail =>
      cases q with
      | page esp =>
          simp only [createNext] at hs
          split_ifs at hs
          obtain ⟨rfl, rfl⟩ := Prod.mk.inj (Option.some.inj hs)
          exact hidle (.refl s) rfl rfl rfl rfl rfl id id id id
      | fork found esp =>
          cases found <;> obtain ⟨rfl, rfl⟩ := Prod.mk.inj (Option.some.inj hs) <;>
            exact hidle (.refl s) rfl rfl rfl rfl rfl id id id id
      | _ => cases hs
  | fork d =>
      cases q with
      | fork found esp =>
          simp only [createNext] at hs
          split_ifs at hs with hd
          obtain ⟨rfl, rfl⟩ := Prod.mk.inj (Option.some.inj hs)
          cases found with
          | none => exact .fork none esp d hd (.inl rfl)
          -- the child is named later by `tidSet`
          | some k => exact .fork (some k) esp d hd (.inr ⟨k, rfl⟩)
      | _ => cases hs
  | add pending st =>
      cases q with
      | add d esp =>
          obtain ⟨rfl, rfl⟩ := Prod.mk.inj (Option.some.inj hs)
          exact .add d esp pending st
      | _ => cases hs
  | run =>
      cases q with
      | lock =>
          simp only [createNext, Option.map_eq_some_iff] at hs
          obtain ⟨s₁, h₁, heq⟩ := hs
          obtain ⟨rfl, rfl⟩ := Prod.mk.inj heq
          exact hidle (rwlockRead_calm h₁) (rwlockRead_waiting h₁) rfl rfl rfl rfl id id id id
      | scan k =>
          simp only [createNext] at hs
          split_ifs at hs <;> obtain ⟨rfl, rfl⟩ := Prod.mk.inj (Option.some.inj hs) <;>
            exact hidle (.refl s) rfl rfl rfl rfl rfl id id id id
      | take k =>
          simp only [createNext, Option.map_eq_some_iff] at hs
          obtain ⟨s₁, h₁, heq⟩ := hs
          obtain ⟨rfl, rfl⟩ := Prod.mk.inj heq
          -- a mutex is taken at four places of the call, the last time by a thread that has it
          -- already
          obtain ⟨hm, rfl⟩ := mutexLock_eq_some h₁
          exact .lock k hm .take
      | check k =>
          simp only [createNext] at hs
          split_ifs at hs with hd <;> obtain ⟨rfl, rfl⟩ := Prod.mk.inj (Option.some.inj hs)
          · exact .claim k hd
          · exact .calm (.refl s) rfl ⟨id, id, rfl, rfl, id, Iff.rfl, id, id⟩
      | giveUp k =>
          obtain ⟨rfl, rfl⟩ := Prod.mk.inj (Option.some.inj hs)
          exact .unlock k .giveUp
      | claimed k esp =>
          obtain ⟨rfl, rfl⟩ := Prod.mk.inj (Option.some.inj hs)
          exact .unlock k (.claimed esp)
      | size =>
          obtain ⟨rfl, rfl⟩ := Prod.mk.inj (Option.some.inj hs)
          exact hidle (.refl s) rfl rfl rfl rfl rfl id id id id
      | release found esp =>
          cases found <;> obtain ⟨rfl, rfl⟩ := Prod.mk.inj (Option.some.inj hs) <;>
            exact hidle (rwlockUnlock_calm s) (rwlockUnlock_waiting s) rfl rfl rfl rfl id id id id
      | page esp =>
          simp only [createNext] at hs
          split_ifs at hs <;> obtain ⟨rfl, rfl⟩ := Prod.mk.inj (Option.some.inj hs) <;>
            exact hidle (.refl s) rfl rfl rfl rfl rfl id id id id
      | bottom esp =>
          obtain ⟨rfl, rfl⟩ := Prod.mk.inj (Option.some.inj hs)
          exact hidle ⟨rfl, rfl, rfl, rfl, rfl, rfl, id⟩ rfl rfl rfl rfl rfl id id id id
      | addLock d esp =>
          simp only [createNext, Option.map_eq_some_iff] at hs
          obtain ⟨s₁, h₁, heq⟩ := hs
          obtain ⟨rfl, rfl⟩ := Prod.mk.inj heq
          unfold ThrLib.rwlockWrite at h₁
          split_ifs at h₁ with hw
          obtain rfl := Option.some.inj h₁
          exact .addLock d esp (by simpa using fun h => hw (.inl h))
      | addUnlock =>
          obtain ⟨rfl, rfl⟩ := Prod.mk.inj (Option.some.inj hs)
          exact .addUnlock
      | tidTake k d =>
          simp only [createNext, Option.map_eq_some_iff] at hs
          obtain ⟨s₁, h₁, heq⟩ := hs
          obtain ⟨rfl, rfl⟩ := Prod.mk.inj heq
          obtain ⟨hm, rfl⟩ := mutexLock_eq_some h₁
          exact .lock k hm (.tidTake d)
      | tidSet k d =>
          obtain ⟨rfl, rfl⟩ := Prod.mk.inj (Option.some.inj hs)
          exact .name k d
      | tidUnlock k =>
          obtain ⟨rfl, rfl⟩ := Prod.mk.inj (Option.some.inj hs)
          exact .unlock k .tidUnlock
      | revertTake k =>
          simp only [createNext, Option.map_eq_some_iff] at hs
          obtain ⟨s₁, h₁, heq⟩ := hs
          obtain ⟨rfl, rfl⟩ := Prod.mk.inj heq
          obtain ⟨hm, rfl⟩ := mutexLock_eq_some h₁
          exact .lock k hm .revertTake
      | revert k =>
          obtain ⟨rfl, rfl⟩ := Prod.mk.inj (Option.some.inj hs)
          exact .revert k
      | revertAgain k =>
          simp only [createNext, Option.map_eq_some_iff] at hs
          obtain ⟨s₁, h₁, heq⟩ := hs
          obtain ⟨rfl, rfl⟩ := Prod.mk.inj heq
          obtain ⟨hm, rfl⟩ := mutexLock_eq_some h₁
          exact .again k hm
      | fork _ _ | add _ _ => cases hs

/-- The steps of `thr_exit`. -/
lemma exitMove_of_next {q : ExitPc} (hs : exitNext s t st q a = some (s', p')) :
    ThrMove s t (.exit st q) a s' p' := by
  cases a with
  | thrCreate | thrExit _ | thrJoin _ | fail | fork _ | add _ _ => cases q <;> cases hs
  | run =>
      cases q with
      | lock =>
          simp only [exitNext, Option.map_eq_some_iff] at hs
          obtain ⟨s₁, h₁, heq⟩ := hs
          obtain ⟨rfl, rfl⟩ := Prod.mk.inj heq
          exact .calm (rwlockRead_calm h₁) (rwlockRead_waiting h₁)
            (aside_idle id id rfl rfl rfl rfl id Iff.rfl id)
      | scan k =>
          simp only [exitNext] at hs
          split_ifs at hs <;> obtain ⟨rfl, rfl⟩ := Prod.mk.inj (Option.some.inj hs) <;>
            exact .calm (.refl s) rfl (aside_idle id id rfl rfl rfl rfl id Iff.rfl id)
      | retry =>
          obtain ⟨rfl, rfl⟩ := Prod.mk.inj (Option.some.inj hs)
          exact .calm (rwlockUnlock_calm s) (rwlockUnlock_waiting s)
            (aside_idle id id rfl rfl rfl rfl id Iff.rfl id)
      | take k =>
          simp only [exitNext, Option.map_eq_some_iff] at hs
          obtain ⟨s₁, h₁, heq⟩ := hs
          obtain ⟨rfl, rfl⟩ := Prod.mk.inj heq
          obtain ⟨hm, rfl⟩ := mutexLock_eq_some h₁
          exact .lock k hm (.exit st)
      | mark k =>
          obtain ⟨rfl, rfl⟩ := Prod.mk.inj (Option.some.inj hs)
          exact .mark st k
      | save k =>
          obtain ⟨rfl, rfl⟩ := Prod.mk.inj (Option.some.inj hs)
          exact .save st k
      | signal k =>
          simp only [exitNext] at hs
          split at hs <;> obtain ⟨rfl, rfl⟩ := Prod.mk.inj (Option.some.inj hs)
          · next hq => exact .signalNone st k hq
          · next w q hq => exact .signal st k w q hq
      | wake k w =>
          obtain ⟨rfl, rfl⟩ := Prod.mk.inj (Option.some.inj hs)
          exact .wake st k w
      | unlock k =>
          obtain ⟨rfl, rfl⟩ := Prod.mk.inj (Option.some.inj hs)
          exact .unlock k (.exit st)
      | release =>
          obtain ⟨rfl, rfl⟩ := Prod.mk.inj (Option.some.inj hs)
          exact .calm (rwlockUnlock_calm s) (rwlockUnlock_waiting s)
            (aside_idle id id rfl rfl rfl rfl id Iff.rfl id)
      | vanish =>
          obtain ⟨rfl, rfl⟩ := Prod.mk.inj (Option.some.inj hs)
          exact .calm (.refl s) rfl (aside_idle id id rfl rfl rfl rfl id Iff.rfl id)

/-- The steps of the loop of `cond_wait`. -/
lemma sleepMove_of_next {q : SleepPc} (hs : sleepNext s t tid k q = some (s', p')) :
    ThrMove s t (.join tid (.wait k q)) .run s' p' := by
  cases q with
  | test =>
      simp only [sleepNext] at hs
      split_ifs at hs with hreject <;> obtain ⟨rfl, rfl⟩ := Prod.mk.inj (Option.some.inj hs)
      · exact .look tid (.refl s) rfl (.woken k hreject)
      · exact .look tid (.refl s) rfl (.unwoken k (by simpa using hreject))
  | exchange =>
      simp only [sleepNext] at hs
      split_ifs at hs with hreject <;> obtain ⟨rfl, rfl⟩ := Prod.mk.inj (Option.some.inj hs)
      · exact .forget tid k hreject
      · exact .look tid (.refl s) rfl (.exchange k (by simpa using hreject))
  | deschedule =>
      obtain ⟨rfl, rfl⟩ := Prod.mk.inj (Option.some.inj hs)
      exact .sleep tid k
  | asleep =>
      simp only [sleepNext] at hs
      split_ifs at hs with hwait
      obtain ⟨rfl, rfl⟩ := Prod.mk.inj (Option.some.inj hs)
      exact .look tid (.refl s) rfl (.wakes k (by simpa using hwait))

/-- The steps of `thr_join`. -/
lemma joinMove_of_next {q : JoinPc} (hs : joinNext s t tid q a = some (s', p')) :
    ThrMove s t (.join tid q) a s' p' := by
  cases a with
  | thrCreate | thrExit _ | thrJoin _ | fail | fork _ | add _ _ => cases q <;> cases hs
  | run =>
      cases q with
      | lock =>
          simp only [joinNext, Option.map_eq_some_iff] at hs
          obtain ⟨s₁, h₁, heq⟩ := hs
          obtain ⟨rfl, rfl⟩ := Prod.mk.inj heq
          exact .look tid (rwlockRead_calm h₁) (rwlockRead_waiting h₁) .lock
      | scan k =>
          simp only [joinNext] at hs
          split_ifs at hs with hk htid <;> obtain ⟨rfl, rfl⟩ := Prod.mk.inj (Option.some.inj hs)
          · exact .look tid (.refl s) rfl (.found k hk htid)
          · exact .look tid (.refl s) rfl (.next k hk htid)
          · exact .look tid (.refl s) rfl (.missed k (Nat.le_of_not_lt hk))
      | giveUp =>
          obtain ⟨rfl, rfl⟩ := Prod.mk.inj (Option.some.inj hs)
          exact .look tid (rwlockUnlock_calm s) (rwlockUnlock_waiting s) .giveUp
      | release k =>
          obtain ⟨rfl, rfl⟩ := Prod.mk.inj (Option.some.inj hs)
          exact .look tid (rwlockUnlock_calm s) (rwlockUnlock_waiting s) (.release k)
      | take k =>
          simp only [joinNext, Option.map_eq_some_iff] at hs
          obtain ⟨s₁, h₁, heq⟩ := hs
          obtain ⟨rfl, rfl⟩ := Prod.mk.inj heq
          obtain ⟨hm, rfl⟩ := mutexLock_eq_some h₁
          exact .lock k hm (.enter tid)
      | enter k =>
          simp only [joinNext] at hs
          split_ifs at hs with hd <;> obtain ⟨rfl, rfl⟩ := Prod.mk.inj (Option.some.inj hs)
          · exact .look tid (.refl s) rfl (.dead k hd)
          · exact .look tid (.refl s) rfl (.enter k hd)
      | refuse k =>
          obtain ⟨rfl, rfl⟩ := Prod.mk.inj (Option.some.inj hs)
          exact .unlock k (.refuse tid)
      | test k =>
          simp only [joinNext] at hs
          split_ifs at hs with halive hpend <;>
            obtain ⟨rfl, rfl⟩ := Prod.mk.inj (Option.some.inj hs)
          · exact .look tid (.refl s) rfl (.pending k halive hpend)
          · exact .wait tid k halive (by simpa using hpend)
          · exact .look tid (.refl s) rfl (.pass k halive)
      | wait k q => exact sleepMove_of_next hs
      | relock k =>
          simp only [joinNext, Option.map_eq_some_iff] at hs
          obtain ⟨s₁, h₁, heq⟩ := hs
          obtain ⟨rfl, rfl⟩ := Prod.mk.inj heq
          obtain ⟨hm, rfl⟩ := mutexLock_eq_some h₁
          exact .lock k hm (.relock tid)
      | save k =>
          obtain ⟨rfl, rfl⟩ := Prod.mk.inj (Option.some.inj hs)
          exact .look tid (.refl s) rfl (.save k)
      | clear k st =>
          obtain ⟨rfl, rfl⟩ := Prod.mk.inj (Option.some.inj hs)
          exact .clear tid k st
      | reap k st =>
          obtain ⟨rfl, rfl⟩ := Prod.mk.inj (Option.some.inj hs)
          exact .reap tid k st
      | unname k st =>
          obtain ⟨rfl, rfl⟩ := Prod.mk.inj (Option.some.inj hs)
          exact .unname tid k st
      | unlock k st =>
          obtain ⟨rfl, rfl⟩ := Prod.mk.inj (Option.some.inj hs)
          exact .finish tid k st

/-- **Every step of a thread is a move** of a thread that has been forked. -/
theorem thrMove_of_next (hs : thrNext s t p a = some (s', p')) :
    t ∈ s.tids ∧ ThrMove s t p a s' p' := by
  obtain ⟨ht, hnext⟩ := thrNext_eq_some hs
  refine ⟨ht, ?_⟩
  cases hnext with
  | thrCreate => exact .calm (.refl s) rfl (aside_idle id id rfl rfl rfl rfl id Iff.rfl id)
  | thrExit status => exact .thrExit status
  | thrJoin kTid => exact .thrJoin kTid
  | create hs => exact createMove_of_next hs
  | exit hs => exact exitMove_of_next hs
  | join hs => exact joinMove_of_next hs

end ShrekOS
