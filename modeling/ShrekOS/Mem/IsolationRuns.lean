/-
Memory isolation along runs.

* `Isolated`: every mapped user page lies in an allocated frame that its own directory
  has on record, and no physical page is mapped twice;
* `VmStep.Careful`: the steps that keep it: sections and new pages in the user space, sections
  whose flags are flags, and removals that take all the pages of the frame they give back;
* `isolated_of_careful`: **isolation in every run of careful steps**;
* `vmStep`, `forkRun`: the steps as a function, and a fork;
* `not_isolated_of_fork`: a child that removes its first pages after `vmm_deep_copy`
  keeps the other ones, in a frame it has given back.
-/
import ShrekOS.Mem.Isolation

namespace ShrekOS

open Kit Kit.Cmd Vm

/-- Every mapped user page lies in an allocated frame that its own directory has on
record, and no physical page is mapped twice. -/
structure Isolated (s : Vm) : Prop where
  inside : ∀ {d w p}, s.userMap d w = some p → ∃ m ∈ (s.pds d).pAddrList, ∃ k,
    s.extent m.pAddr = some k ∧ Within m.pAddr k p
  exclusive : ∀ {d e w v p}, s.userMap d w = some p → s.userMap e v = some p → d = e ∧ w = v

/-- The heap answers every request of the step. -/
def VmStep.HeapSucceeds : VmStep → Prop
  | .call _ heap => ∀ r ∈ heap, r ≠ none
  | .scribble _ => True

/-- The bounds that `vmm_map_sections` uses are those of a range of the user space. -/
def InUserSpace (secs : List MemSection) (garbage : UInt32 × UInt32) : Prop :=
  let (low, high) := (msGetBoundingAddr secs).getD garbage
  userMemStart ≤ low.toNat ∧ low ≤ high

instance (secs : List MemSection) (garbage : UInt32 × UInt32) :
    Decidable (InUserSpace secs garbage) :=
  inferInstanceAs (Decidable (_ ∧ _))

/-- Sections and new pages lie in the user space, the flags of sections are flags, and a removal
takes all the pages of the frame that it gives back. -/
def VmOp.Careful (s : Vm) : VmOp → Prop
  | .mapSections _ secs garbage => InUserSpace secs garbage ∧
      ∀ ms ∈ secs, ms.pteF.toNat < 2 ^ 12 ∧ ms.pdeF.toNat < 2 ^ 12
  | .removeUserPage d base => RemovesWhole s d base.toNat
  | .newUserPage _ base _ => userMemStart ≤ base.toNat
  | .deepCopy _ _ _ => True
  | .clearUserSpace _ => True

/-- A step that keeps the processes isolated. -/
def VmStep.Careful (s : Vm) (a : VmStep) : Prop :=
  a.HeapSucceeds ∧ ∀ op heap, a = .call op heap → op.Careful s

variable {lim : ℕ} {s s' : Vm}

/-- Every operation keeps a secure state secure, if it is careful. -/
theorem perform_secure (h : Secure lim s) (hs : Settled s) (op : VmOp) (hop : op.Careful s) :
    wp op.perform (fun _ s' => Secure lim s' ∧ Settled s') (fun e _ => Halts e) s := by
  cases op with
  | mapSections d secs garbage =>
      rw [VmOp.perform, wp_bind]
      exact wp_imp (vmmMapSections_secure h hs d hop.2 garbage) fun _ _ h' => h'
  | newUserPage d base numPages =>
      rw [VmOp.perform, wp_bind]
      exact wp_imp (vmmNewUserPage_secure h hs d base numPages) fun _ _ h' => h'
  | removeUserPage d base =>
      rw [VmOp.perform, wp_bind]
      exact wp_imp (vmmRemoveUserPage_secure h hs d base hop) fun _ _ h' => h'
  | deepCopy dest src garbage =>
      rw [VmOp.perform, wp_bind]
      exact wp_imp (vmmDeepCopy_secure h hs dest src garbage) fun _ _ h' => h'
  | clearUserSpace d =>
      rw [VmOp.perform, wp_bind]
      exact wp_imp (vmmClearUserSpace_secure h hs d) fun _ _ h' => h'

/-! ### Runs -/

/-- **The invariant of careful runs**: between operations the state is secure, and the
page tables are apart. -/
structure Guarded (lim : ℕ) (s : Vm) : Prop where
  secure : Secure lim s
  tables : Tables s.dirs s.live
  idle : ∀ d, (s.pds d).batchEnabled = false

/-- A secure state is one with any answers of the heap to come. -/
lemma Secure.of_heap (h : Secure lim s) (heap : List (Option ℕ)) :
    Secure lim { s with heap := heap } :=
  ⟨h.toBooks.of_ledger rfl, h.tenancy⟩

/-- Memory that is not in use does not matter. -/
lemma Guarded.scribble (h : Guarded lim s) (memory : ℕ → ℕ → ℕ) :
    Guarded lim (s.scribble memory) := by
  have hmap : (s.scribble memory).userMap = s.userMap := by
    refine userMap_congr fun e w hw => ?_
    have hsame : (s.scribble memory).dirs = s.dirs := rfl
    refine pageEntry_congr (congrFun (congrFun hsame e) _) fun hpre => ?_
    have hlive := h.tables.live hw.2 (ne_zero_of_present hpre)
    rw [Vm.scribble]
    dsimp only
    rw [if_pos hlive]
  refine ⟨⟨h.secure.toBooks.of_ledger rfl, ?_⟩, h.tables, h.idle⟩
  rw [hmap]
  exact h.secure.tenancy

/-- After boot no user page has an entry. -/
lemma VmInit.pageEntry_none (h : VmInit s) {d w : ℕ} (hw : UserPage w) :
    s.pageEntry d w = none := by
  refine pageEntry_of_absent ?_
  have hzero : s.dirs d (w / numEntries) = 0 := (h.fresh d).2.2.2 _ hw.1 hw.2
  rw [hzero]
  rfl

/-- After boot no user page is mapped. -/
lemma VmInit.userMap_none (h : VmInit s) (d w : ℕ) : s.userMap d w = none := by
  rw [userMap]
  split_ifs with hw
  · rw [h.pageEntry_none hw, Option.map_none]
  · rfl

/-- After boot the state is secure. -/
lemma VmInit.guarded (h : VmInit s) : ∃ lim, Guarded lim s := by
  obtain ⟨lim, hledger⟩ := h.ledger
  have hzero : ∀ d i, numKernelPde ≤ i → i < numEntries → s.dirs d i = 0 := fun d =>
    (h.fresh d).2.2.2
  have hmap := h.userMap_none
  refine ⟨lim, ⟨⟨hledger, fun d => ?_⟩, ?_⟩, ?_, fun d => (h.fresh d).2.2.1⟩
  · have hl : s.lists d = [] := (h.fresh d).1
    have hc : s.counts d = 0 := (h.fresh d).2.1
    rw [hl, hc, List.map_nil, List.sum_nil]
  · exact ⟨fun hw => by simp [hmap] at hw, fun hw => by simp [hmap] at hw,
      fun hw => by simp [hmap] at hw⟩
  · refine ⟨fun hi => (h.kernel _ _ hi).2.1, fun {d i} hi h0 => ?_, fun h4 hi _ h0 => ?_⟩
    · rcases lt_or_ge i numKernelPde with hlt | hge
      · exact (h.kernel d i hlt).2.2
      · exact absurd (hzero d i hge hi) h0
    · exact absurd (hzero _ _ h4 hi) h0

/-- Every careful step keeps the invariant. -/
lemma Guarded.step (h : Guarded lim s) {a : VmStep} (ha : a.Careful s)
    (hstep : vmMachine.step s a s') : Guarded lim s' := by
  cases a with
  | call op heap =>
      have hrun : op.perform { s with heap := heap } = (.ok (), s') := hstep
      have hs : Settled { s with heap := heap } := ⟨h.tables, ha.1, h.idle⟩
      obtain ⟨hsec, hset⟩ := wp_ok (Q := fun _ s' => Secure lim s' ∧ Settled s')
        (perform_secure (h.secure.of_heap heap) hs op (ha.2 op heap rfl)) hrun
      exact ⟨hsec, hset.tables, hset.idle⟩
  | scribble memory =>
      obtain rfl : s' = s.scribble memory := hstep
      exact h.scribble memory

/-- A secure state is isolated. -/
lemma Secure.isolated (h : Secure lim s) : Isolated s where
  inside hw := by
    obtain ⟨m, hm, h1, h2⟩ := h.tenancy.inside hw
    obtain ⟨k, hk, -, hle⟩ := h.balanced.recorded hm
    exact ⟨m, hm, k, hk, h1, h2.trans (Nat.add_le_add_left (Nat.mul_le_mul_left _ hle) _)⟩
  exclusive hw hv := h.tenancy.exclusive hw hv

/-! ### Runs of the operations -/

/-- The step of the machine as a function. -/
def vmStep (s : Vm) : VmStep → Option Vm
  | .call op heap =>
      match op.perform { s with heap := heap } with
      | (.ok (), s') => some s'
      | (.error _, _) => none
  | .scribble memory => some (s.scribble memory)

lemma vmStep_sound (s : Vm) (a : VmStep) (s' : Vm) (h : vmStep s a = some s') :
    vmMachine.step s a s' := by
  cases a with
  | call op heap =>
      rw [vmStep] at h
      change op.perform { s with heap := heap } = (.ok (), s')
      rcases hrun : op.perform { s with heap := heap } with ⟨e | ⟨⟩, s₁⟩
      · simp [hrun] at h
      · simp only [hrun, Option.some.injEq] at h
        rw [h]
  | scribble memory =>
      rw [vmStep, Option.some.injEq] at h
      exact h.symm

/-- A process gets two separate pages and is forked; the child removes the first. -/
def forkRun : List VmStep :=
  [.call (.newUserPage 0 0x1000000 1)
      [some 0x9000, some 0x9010, some 0x5000, some 0x9020, some 0x9030],
    .call (.newUserPage 0 0x1002000 1) [some 0x9040, some 0x9050, some 0x9060, some 0x9070],
    .call (.deepCopy 1 0 id) [some 0x9080, some 0x9090, some 0x6000, some 0x90a0, some 0x90b0],
    .call (.removeUserPage 1 0x1000000) [some 0x90c0, some 0x90d0]]

/-- **Memory isolation**: in every run of careful steps, whatever the operations and
their arguments, the processes are isolated. -/
theorem isolated_of_careful (h : vmMachine.Reach (fun s a => a.Careful s) s) : Isolated s := by
  obtain ⟨lim, hg⟩ := Machine.Reach.inv (I := fun s => ∃ lim, Guarded lim s)
    (fun _ hs => VmInit.guarded hs) (fun _ _ _ ⟨lim, hg⟩ ha hstep => ⟨lim, hg.step ha hstep⟩) h
  exact hg.secure.isolated

/-- After the fork of a process with two separate pages both processes are isolated. -/
theorem isolated_of_careful_fork :
    ∃ s, s.userMap 1 0x1002 = some 0x1003000 ∧ Isolated s := by
  have hrun : ((Machine.replay vmStep (bootVm 3 8) (forkRun.take 3)).map fun s =>
      s.userMap 1 0x1002) = some (some 0x1003000) := by decide +kernel
  rw [Option.map_eq_some_iff] at hrun
  obtain ⟨s, hs, hmap⟩ := hrun
  refine ⟨s, hmap, isolated_of_careful (Machine.reach_of_replay vmStep_sound _ ?_ (.init ?_) hs)⟩
  · intro a ha s
    fin_cases ha <;> simp [VmStep.Careful, VmStep.HeapSucceeds, VmOp.Careful, userMemStart]
  · exact bootVm_init (by decide) (by decide) (by decide) (by decide)

/-- **The child is not isolated**: its second page is still mapped, and it has no frame
on record any more. -/
theorem not_isolated_of_fork :
    ∃ s, vmMachine.Reach (fun _ a => a.HeapSucceeds) s ∧ ¬ Isolated s ∧
      s.userMap 1 0x1002 = some 0x1003000 ∧ (s.pds 1).pAddrList = [] := by
  have hrun : ((Machine.replay vmStep (bootVm 3 8) forkRun).map fun s =>
      (s.userMap 1 0x1002, (s.pds 1).pAddrList)) = some (some 0x1003000, []) := by
    decide +kernel
  rw [Option.map_eq_some_iff] at hrun
  obtain ⟨s, hs, heq⟩ := hrun
  obtain ⟨hmap, hlist⟩ := Prod.mk.inj heq
  refine ⟨s, ?_, fun hiso => ?_, hmap, hlist⟩
  · refine Machine.reach_of_replay vmStep_sound forkRun ?_ (.init ?_) hs
    · intro a ha s
      fin_cases ha <;> simp [VmStep.HeapSucceeds]
    · exact bootVm_init (by decide) (by decide) (by decide) (by decide)
  · obtain ⟨m, hm, -⟩ := hiso.inside hmap
    rw [hlist] at hm
    simp at hm

end ShrekOS
