/-
No batch of mappings is left over between operations, also where the heap fails.

* `NoBatch`: some directories have no batch under way; every command but the beginning of a
  batch keeps that, whatever the heap answers and the page tables hold;
* `perform_idle`: every operation ends the batch it began, on every exit;
* `idle_of_reachable`: **in every state between operations** no batch is under way.
-/
import ShrekOS.Mem.Ledger

namespace ShrekOS

open Kit Kit.Cmd Vm

variable {D : ℕ → Prop} {d : ℕ} {s s' : Vm}

/-- The directories of `D` have no batch under way. -/
def NoBatch (D : ℕ → Prop) (s : Vm) : Prop := ∀ e, D e → (s.pds e).batchEnabled = false

namespace NoBatch

/-- A directory is put back with its batch as it was. -/
lemma setPd (h : NoBatch D s) {pd : PageDirectory}
    (hpd : pd.batchEnabled = (s.pds d).batchEnabled) :
    NoBatch D { s with pds := Function.update s.pds d pd } := by
  intro e he
  by_cases hed : e = d
  · subst hed
    simpa [hpd] using h e he
  · simpa [Function.update_of_ne hed] using h e he

lemma malloc : Preserves (NoBatch D) Vm.malloc := by
  intro s h
  rw [wlp, wp_malloc]
  cases s.heap with
  | nil => trivial
  | cons r rs => exact h

lemma memalign : Preserves (NoBatch D) Vm.memalign := by
  intro s h
  rw [wlp, wp_memalign]
  rcases s.heap with _ | ⟨_ | a, rs⟩
  · trivial
  · exact h
  · dsimp only
    split_ifs
    exact h

lemma free (t : Option ℕ) : Preserves (NoBatch D) (Vm.free t) := by
  cases t with
  | none => exact .pure ()
  | some a => exact .modify fun _ h => h

lemma setEntry (d i v : ℕ) : Preserves (NoBatch D) (Vm.setEntry d i v) := by
  intro s h
  rw [wlp, wp_setEntry]
  exact h.setPd rfl

lemma setPte (t j v : ℕ) : Preserves (NoBatch D) (Vm.setPte t j v) := .modify fun _ h => h

lemma clearTable (t : ℕ) : Preserves (NoBatch D) (Vm.clearTable t) := .modify fun _ h => h

lemma liftFm {α : Type} (c : FmM α) : Preserves (NoBatch D) (Vm.liftFm c) := by
  intro s h
  rw [wlp, wp_liftFm]
  exact wp_any _ (fun _ _ => h) fun _ _ => trivial

/-- Reading a directory and putting it back with its batch as it was. -/
lemma updatePd {f : PageDirectory → PageDirectory}
    (hf : ∀ pd, (f pd).batchEnabled = pd.batchEnabled) :
    Preserves (NoBatch D) (do let pd ← gets fun s => s.pds d; Vm.setPd d (f pd)) := by
  intro s h
  rw [wlp, wp_bind, wp_gets, wp_setPd]
  exact h.setPd (hf _)

/-- The same, and then a command that keeps it. -/
lemma updatePd_bind {α : Type} {f : PageDirectory → PageDirectory} {k : VmM α}
    (hf : ∀ pd, (f pd).batchEnabled = pd.batchEnabled) (hk : Preserves (NoBatch D) k) :
    Preserves (NoBatch D) (do let pd ← gets fun s => s.pds d; Vm.setPd d (f pd); k) := by
  intro s h
  rw [wlp, wp_bind, wp_gets, wp_bind, wp_setPd]
  exact hk _ (h.setPd (hf _))

/-! ### Mappings -/

lemma pdGetMapping (d v : ℕ) : Preserves (NoBatch D) (pdGetMapping d v) :=
  .bind (.gets _) fun _ => .ite (.pure _) (.bind (.gets _) fun _ => .ite (.pure _) (.pure _))

lemma freeResources : ∀ tasks, Preserves (NoBatch D) (freeResources tasks)
  | [] => .pure ()
  | _ :: tasks => .bind (free _) fun _ => freeResources tasks

lemma commitTasks (d : ℕ) : ∀ tasks, Preserves (NoBatch D) (commitTasks d tasks)
  | [] => .pure ()
  | _ :: tasks => .bind (.gets _) fun _ => .bind (setPte _ _ _) fun _ => commitTasks d tasks

lemma createTable (d i flags : ℕ) : Preserves (NoBatch D) (createTable d i flags) := by
  refine .bind (.gets _) fun pde => .ite (.pure _) (.bind memalign fun r => ?_)
  cases r with
  | none => exact .pure _
  | some a => exact .bind (clearTable a) fun _ => .bind (setEntry _ _ _) fun _ => .pure _

lemma recordMapping (d v t pte : ℕ) (r : Option ℕ) :
    Preserves (NoBatch D) (recordMapping d v t pte r) :=
  .bind (.gets _) fun _ => .ite (.bind malloc fun _ => .ite (.pure _)
    (.bind malloc fun _ => .ite (.bind (free r) fun _ => .pure _)
      (updatePd_bind (fun _ => PageDirectory.addTask_batchEnabled _ _) (.pure _))))
    (.bind (setPte _ _ _) fun _ => .pure _)

lemma pdCreateMapping (d v p f g : ℕ) : Preserves (NoBatch D) (pdCreateMapping d v p f g) := by
  refine .ite (.pure _) (.bind (createTable _ _ _) fun r => ?_)
  rcases r with _ | ⟨pde, r⟩
  · exact .pure _
  · exact recordMapping _ _ _ _ _

lemma pdRemoveMapping (d v : ℕ) : Preserves (NoBatch D) (pdRemoveMapping d v) :=
  .ite (.pure _) (.bind (.gets _) fun _ => .ite (.pure _) (.bind (.gets _) fun _ =>
    .ite (.pure _) (recordMapping _ _ _ _ _)))

lemma mapPages (d : ℕ) (secs : List MemSection) (v : UInt32) (p n : ℕ) :
    ∀ k, Preserves (NoBatch D) (mapPages d secs v p n k)
  | 0 => .pure _
  | k + 1 => .ite (.pure _) (.bind (pdCreateMapping _ _ _ _ _) fun _ =>
      .ite (.pure _) (mapPages d secs v p n k))

lemma anyMapped (d : ℕ) : ∀ k v, Preserves (NoBatch D) (anyMapped d k v)
  | 0, _ => .pure _
  | k + 1, _ => by
      refine .bind (pdGetMapping _ _) fun r => ?_
      cases r with
      | ok v => exact .pure _
      | error e => exact anyMapped d k _

lemma mapUserPages (d : ℕ) (base : UInt32) (p n : ℕ) :
    ∀ k, Preserves (NoBatch D) (mapUserPages d base p n k)
  | 0 => .pure _
  | k + 1 => .bind (pdCreateMapping _ _ _ _ _) fun _ =>
      .ite (.pure _) (mapUserPages d base p n k)

lemma removePages (d : ℕ) : ∀ fuel v prev, Preserves (NoBatch D) (removePages d fuel v prev)
  | 0, _, _ => .fault _
  | fuel + 1, _, _ => .ite (.fault _) (.bind (pdGetMapping _ _) fun _ =>
      .bind (pdRemoveMapping _ _) fun _ => .ite (.pure _) (.ite (.pure _)
        (removePages d fuel _ _)))

/-! ### Copying, clearing and frames -/

lemma ptCopy (dest src : ℕ) : ∀ k pAddr, Preserves (NoBatch D) (ptCopy dest src k pAddr)
  | 0, _ => .pure _
  | k + 1, _ => .bind (.gets _) fun _ => .ite
      (.bind malloc fun _ => .ite (.pure _) (.bind (setPte _ _ _) fun _ => ptCopy dest src k _))
      (ptCopy dest src k _)

lemma rollBack (dest i : ℕ) (backup : ℕ → ℕ) : Preserves (NoBatch D) (rollBack dest i backup) :=
  .bind (.upTo _ fun _ _ => .bind (.gets _) fun _ => .ite (free _) (.pure _)) fun _ =>
    updatePd fun _ => rfl

lemma deepCopyFrom (dest src : ℕ) :
    ∀ k pAddr backup, Preserves (NoBatch D) (deepCopyFrom dest src k pAddr backup)
  | 0, _, _ => .pure _
  | k + 1, _, _ => by
      refine .bind (.gets _) fun _ => .ite (.bind memalign fun r => ?_)
        (deepCopyFrom dest src k _ _)
      cases r with
      | none => exact .bind (rollBack _ _ _) fun _ => .pure _
      | some a =>
          exact .bind (clearTable a) fun _ => .bind (.gets _) fun _ =>
            .bind (setEntry _ _ _) fun _ => .bind (ptCopy _ _ _ _) fun _ =>
              deepCopyFrom dest src k _ _

lemma pdClearUserSpace (d : ℕ) : Preserves (NoBatch D) (pdClearUserSpace d) :=
  .upTo _ fun _ _ => .bind (.gets _) fun _ =>
    .ite (.bind (setEntry _ _ _) fun _ => free _) (.pure _)

lemma pdAllocFrame (d p n : ℕ) : Preserves (NoBatch D) (pdAllocFrame d p n) :=
  updatePd_bind (fun _ => rfl) (.bind malloc fun _ => .ite (.pure _) (.bind malloc fun _ =>
    .ite (.pure _) (updatePd_bind (fun _ => rfl) (.pure _))))

lemma pdDeallocFrame (d p : ℕ) : Preserves (NoBatch D) (pdDeallocFrame d p) := by
  intro s h
  rw [wlp, ShrekOS.pdDeallocFrame, wp_bind, wp_gets]
  cases (s.pds d).pAddrList.find? fun m => m.pAddr = p with
  | none => exact h
  | some m =>
      dsimp only
      rw [wp_bind, wp_setPd, wp_pure]
      exact h.setPd rfl

lemma undoFrame (d p : ℕ) : Preserves (NoBatch D) (undoFrame d p) :=
  .bind (liftFm _) fun _ => .bind (pdDeallocFrame d p) fun _ => .pure _

lemma pdDeallocAllFrames (d : ℕ) : Preserves (NoBatch D) (pdDeallocAllFrames d) := by
  intro s h
  rw [wlp, ShrekOS.pdDeallocAllFrames, wp_bind, wp_gets, wp_bind, wp_setPd, wp_pure]
  exact h.setPd rfl

lemma deallocFrames : ∀ frames, Preserves (NoBatch D) (deallocFrames frames)
  | [] => .pure ()
  | _ :: frames => .bind (liftFm _) fun _ => deallocFrames frames

lemma withFrame (d n : ℕ) (noFrame noRecord : ℤ) {use : ℕ → VmM ℤ}
    (huse : ∀ a, Preserves (NoBatch D) (use a)) :
    Preserves (NoBatch D) (withFrame d n noFrame noRecord use) := by
  refine .bind (liftFm _) fun r => ?_
  cases r with
  | error e => exact .pure _
  | ok a =>
      exact .bind (pdAllocFrame _ _ _) fun _ =>
        .ite (.bind (liftFm _) fun _ => .pure _) (huse a)

end NoBatch

/-! ### Operations -/

/-- No directory has a batch under way. -/
abbrev Idle (s : Vm) : Prop := NoBatch (fun _ => True) s

/-- From a batch on `d` alone, the command ends in a state without one. -/
def Settles {α : Type} (d : ℕ) (c : VmM α) : Prop :=
  ∀ s, NoBatch (fun e => e ≠ d) s → wlp c (fun _ s' => Idle s') s

namespace Settles

variable {α β : Type}

lemma bind {c : VmM β} {k : β → VmM α} (hc : Preserves (NoBatch fun e => e ≠ d) c)
    (hk : ∀ b, Settles d (k b)) : Settles d (c >>= k) := by
  intro s hs
  rw [wlp, wp_bind]
  exact wp_imp (hc s hs) fun b s' hs' => hk b s' hs'

lemma ite {p : Prop} [Decidable p] {c c' : VmM α} (hc : Settles d c) (hc' : Settles d c') :
    Settles d (if p then c else c') := by
  split_ifs
  · exact hc
  · exact hc'

/-- The batch of `d` is over. -/
lemma finish {pd : PageDirectory} (h : NoBatch (fun e => e ≠ d) s) (hpd : pd.batchEnabled = false) :
    Idle { s with pds := Function.update s.pds d pd } := by
  intro e _
  by_cases hed : e = d
  · simpa [hed] using hpd
  · simpa [Function.update_of_ne hed] using h e hed

lemma abort {k : VmM α} (hk : Preserves Idle k) : Settles d (do pdAbortMapping d; k) := by
  intro s hs
  rw [wlp, wp_bind, pdAbortMapping, wp_bind, wp_gets, wp_bind]
  refine wp_imp (NoBatch.freeResources _ s hs) fun _ s₁ hs₁ => ?_
  rw [wp_bind, wp_gets, wp_setPd]
  exact hk _ (finish hs₁ rfl)

lemma commit {k : VmM α} (hk : Preserves Idle k) : Settles d (do pdCommitMapping d; k) := by
  intro s hs
  rw [wlp, wp_bind, pdCommitMapping, wp_bind, wp_gets, wp_bind]
  refine wp_imp (NoBatch.commitTasks d _ s hs) fun _ s₁ hs₁ => ?_
  rw [wp_bind, wp_gets, wp_setPd]
  exact hk _ (finish hs₁ rfl)

/-- A batch that is begun and ended. -/
lemma begin {k : ℤ → VmM α} (hk : Settles d (k 0)) :
    Preserves Idle (pdBeginMapping d >>= k) := by
  intro s hs
  rw [wlp, wp_bind, pdBeginMapping, wp_bind, wp_gets, wp_ite]
  refine ⟨fun hb => absurd hb (by simp [hs d trivial]), fun _ => ?_⟩
  rw [wp_bind, wp_setPd, wp_pure]
  refine hk _ fun e he => ?_
  simpa [Function.update_of_ne he] using hs e trivial

end Settles

/-- **Every operation ends the batch it began**, whatever the heap answers. -/
lemma perform_idle (op : VmOp) : Preserves Idle op.perform := by
  cases op with
  | mapSections d secs garbage =>
      refine .bind (.ite (.pure _) (.ite (.pure _) (NoBatch.withFrame _ _ _ _ fun a =>
        Settles.begin ?_))) fun _ => .pure _
      exact .bind (NoBatch.mapPages _ _ _ _ _ _) fun r => .ite
        (.abort (.bind (NoBatch.undoFrame _ _) fun _ => .pure _)) (.commit (.pure _))
  | newUserPage d base numPages =>
      refine .bind (.ite (.pure _) (.ite (.pure _) (.bind (NoBatch.anyMapped _ _ _) fun _ =>
        .ite (.pure _) (NoBatch.withFrame _ _ _ _ fun a => Settles.begin ?_)))) fun _ => .pure _
      exact .bind (NoBatch.mapUserPages _ _ _ _ _) fun r => .ite
        (.abort (.bind (NoBatch.pdDeallocFrame _ _) fun _ =>
          .bind (NoBatch.liftFm _) fun _ => .pure _))
        (.commit (.pure _))
  | removeUserPage d base =>
      refine .bind (.ite (.pure _) (.bind (NoBatch.pdGetMapping _ _) fun r => ?_)) fun _ => .pure _
      cases r with
      | error e => exact .pure _
      | ok v =>
          refine .ite (.pure _) (Settles.begin (.bind (NoBatch.removePages _ _ _ _) fun b =>
            .ite (.abort (.pure _)) (.bind (NoBatch.pdDeallocFrame _ _) fun r => ?_)))
          cases r with
          | none => exact .abort (.pure _)
          | some size =>
              exact .bind (NoBatch.liftFm _) fun _ => .ite
                (.bind (NoBatch.pdAllocFrame _ _ _) fun _ => .abort (.pure _)) (.commit (.pure _))
  | deepCopy dest src garbage =>
      exact .bind (.bind (.gets _) fun _ => NoBatch.withFrame _ _ _ _ fun a =>
        .bind (NoBatch.deepCopyFrom _ _ _ _ _) fun _ =>
          .ite (.bind (NoBatch.undoFrame _ _) fun _ => .pure _) (.pure _)) fun _ => .pure _
  | clearUserSpace d =>
      exact .bind (.bind (NoBatch.pdDeallocAllFrames _) fun _ => .bind (NoBatch.deallocFrames _)
        fun _ => .bind (NoBatch.pdClearUserSpace _) fun _ => .pure _) fun _ => .pure _

/-- **Between operations no batch is under way**, in any run. -/
theorem idle_of_reachable (h : vmMachine.Reachable s) : ∀ e, (s.pds e).batchEnabled = false := by
  have hidle : Idle s := by
    refine Machine.Reach.inv (I := Idle) (fun s hs e _ => (hs.fresh e).2.2.1) ?_ h
    intro s a s' hs _ hstep
    cases a with
    | call op heap =>
        have hrun : op.perform { s with heap := heap } = (.ok (), s') := hstep
        exact wp_ok (Q := fun _ s' => Idle s')
          (perform_idle op { s with heap := heap } hs) hrun
    | scribble memory =>
        obtain rfl : s' = s.scribble memory := hstep
        exact hs
  exact fun e => hidle e trivial

end ShrekOS
