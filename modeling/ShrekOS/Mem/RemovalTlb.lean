/-
Removing user pages while the processor holds translations: `vmm_remove_user_page` of
`kern/virtual_mem_mgmt/virtual_mem_mgmt.c` with its `flush_tlb`, and the loop of
`pd_commit_mapping` write by write.

* `Point`: the places in the code, and the pages that the processor looks up at each;
* `Mmu.vmmRemoveUserPage`: the call with a `Tlb`; `vmmRemoveUserPage_erases`: without it, it is
  the call of `Vmm`;
* `removePages_tlb`, `commitTasks_tlb`: the loop and the commit, and what is held after them;
* `vmmRemoveUserPage_flushed_iff`: **when no translation of a removed page stays**: no such
  page is looked up between its flush and the write of its entry;
* `not_flushed_of_look`: one that is looked up in between stays.

The directory is the one that is loaded, as for the caller, so that the processor walks it.
-/
import ShrekOS.Lib.Tlb
import ShrekOS.Mem.Batch
import ShrekOS.Mem.ForkRemoval
import ShrekOS.Mem.Mappings

namespace ShrekOS

open Kit Kit.Cmd Vm

/-- A place in the code. Pages that are looked up at any other moment are looked up at the
place before it, since nothing is written or flushed in between. -/
inductive Point where
  | entered
  | queued (w : ℕ)
  | flushed (w : ℕ)
  | forgotten
  | freed
  | written (w : ℕ)
  deriving DecidableEq

/-- What the processor finds for a page when it walks the tables: both entries. -/
def Vm.walk (s : Vm) (d w : ℕ) : Option (ℕ × ℕ) :=
  if w / numEntries < numEntries then
    (s.pageEntry d w).map fun pte => (s.dirs d (w / numEntries), pte)
  else none

/-- The virtual memory and the translations that are held. -/
structure Mmu where
  vm : Vm
  tlb : Tlb ℕ (ℕ × ℕ)

/-- Commands on both. -/
abbrev MmuM (α : Type) : Type := Cmd Fault Mmu α

namespace Mmu

/-- A command of the virtual memory. -/
def liftVm {α : Type} (c : VmM α) : MmuM α := fun t =>
  ((c t.vm).1, { t with vm := (c t.vm).2 })

/-- The processor looks pages up. -/
def look (d : ℕ) (ws : List ℕ) : MmuM Unit :=
  modify fun t => { t with tlb := t.tlb.fill (t.vm.walk d) ws }

/-- `flush_tlb`. -/
def flushTlb (vAddr : ℕ) : MmuM Unit :=
  modify fun t => { t with tlb := t.tlb.flush (vAddr / pageSize) }

variable (looks : Point → List ℕ) (d : ℕ)

/-- The loop of `pd_commit_mapping`. -/
def commitTasks : List MappingTask → MmuM Unit
  | [] => pure ()
  | task :: tasks => do
      let pde ← liftVm (entry d (pdeIndex task.vAddr))
      liftVm (setPte (removeFlags pde) (pteIndex task.vAddr) task.pte)
      look d (looks (.written (task.vAddr / pageSize)))
      commitTasks tasks

/-- `pd_commit_mapping`. -/
def pdCommitMapping : MmuM Unit := do
  commitTasks looks d (← liftVm (gets fun s => (s.pds d).mappingTasks))
  let pd ← liftVm (gets fun s => s.pds d)
  liftVm (setPd d { pd with mappingTasks := [], batchEnabled := false, idle := idle_nil })

/-- The loop of `vmm_remove_user_page`, with fuel. -/
def removePages : ℕ → UInt32 → ℕ → MmuM Bool
  | 0, _, _ => fault .outOfFuel
  | fuel + 1, vAddr, prev => do
      if vAddr - 4096 > vAddr then
        fault (.panic "Overflowed while deallocating stack space!!")
      else do
      let entry := match ← liftVm (pdGetMapping d vAddr.toNat) with
        | .ok v => v
        | .error _ => prev
      if (← liftVm (pdRemoveMapping d vAddr.toNat)) < 0 then pure false else do
      look d (looks (.queued (vAddr.toNat / pageSize)))
      flushTlb vAddr.toNat
      look d (looks (.flushed (vAddr.toNat / pageSize)))
      if isUserEnd entry then pure true else
      removePages fuel (vAddr + 4096) entry

/-- `vmm_remove_user_page`. -/
def vmmRemoveUserPage (base : UInt32) : MmuM ℤ := do
  look d (looks .entered)
  if base.toNat < userMemStart ∨ ¬ isPageAligned base.toNat then pure (-1) else do
  match ← liftVm (pdGetMapping d base.toNat) with
  | .error _ => pure (-2)
  | .ok v => do
      if ¬ isUserStart v then pure (-3) else do
      let pAddrBase := removeFlags v
      let _ ← liftVm (pdBeginMapping d)
      if !(← removePages looks d (2 ^ 20 + 1) base 0) then do
        liftVm (pdAbortMapping d)
        pure (-4)
      else do
      match ← liftVm (pdDeallocFrame d pAddrBase) with
      | none => do
          liftVm (pdAbortMapping d)
          pure (-5)
      | some frameSize => do
          look d (looks .forgotten)
          if (← liftVm (liftFm (fmDealloc pAddrBase))) < 0 then do
            let _ ← liftVm (pdAllocFrame d pAddrBase frameSize)
            liftVm (pdAbortMapping d)
            pure (-6)
          else do
          look d (looks .freed)
          pdCommitMapping looks d
          pure 0

end Mmu

variable {looks : Point → List ℕ} {d : ℕ} {s s' : Vm} {t t' : Mmu}

lemma Mmu.wp_liftVm {α : Type} {Q : α → Mmu → Prop} {E : Fault → Mmu → Prop} (c : VmM α) :
    wp (Mmu.liftVm c) Q E t ↔
      wp c (fun a s' => Q a { t with vm := s' }) (fun e s' => E e { t with vm := s' }) t.vm := by
  unfold wp Mmu.liftVm
  rcases c t.vm with ⟨_ | _, _⟩ <;> rfl

/-! ### Without the translations -/

/-- The two commands return the same and leave the same virtual memory. -/
def Erases {α : Type} (c : MmuM α) (c' : VmM α) : Prop :=
  ∀ t, (c t).1 = (c' t.vm).1 ∧ (c t).2.vm = (c' t.vm).2

namespace Erases

variable {α β : Type}

lemma liftVm (c : VmM α) : Erases (Mmu.liftVm c) c := fun _ => ⟨rfl, rfl⟩

lemma pure (a : α) : Erases (Pure.pure a) (Pure.pure a) := fun _ => ⟨rfl, rfl⟩

lemma fault (e : Fault) : Erases (Cmd.fault e : MmuM α) (Cmd.fault e) := fun _ => ⟨rfl, rfl⟩

lemma bind {c : MmuM β} {c' : VmM β} {k : β → MmuM α} {k' : β → VmM α} (hc : Erases c c')
    (hk : ∀ b, Erases (k b) (k' b)) : Erases (c >>= k) (c' >>= k') := by
  intro t
  obtain ⟨h1, h2⟩ := hc t
  change (seq c k t).1 = (seq c' k' t.vm).1 ∧ (seq c k t).2.vm = (seq c' k' t.vm).2
  unfold seq
  rcases hrun : c t with ⟨e | b, t₁⟩ <;> rcases hrun' : c' t.vm with ⟨e' | b', s₁⟩ <;>
    rw [hrun, hrun'] at h1 h2
  · exact ⟨congrArg _ (Except.error.inj h1), h2⟩
  · cases h1
  · cases h1
  · obtain rfl := Except.ok.inj h1
    obtain rfl := h2
    exact hk b t₁

/-- What the processor looks up or drops is not seen. -/
lemma skip {f : Mmu → Mmu} {k : Unit → MmuM α} {c' : VmM α} (hf : ∀ t, (f t).vm = t.vm)
    (hk : Erases (k ()) c') : Erases (modify f >>= k) c' := by
  intro t
  have h := hk (f t)
  rw [hf t] at h
  exact h

lemma ite {p : Prop} [Decidable p] {c₁ c₂ : MmuM α} {c₁' c₂' : VmM α} (h₁ : Erases c₁ c₁')
    (h₂ : Erases c₂ c₂') : Erases (if p then c₁ else c₂) (if p then c₁' else c₂') := by
  split_ifs
  · exact h₁
  · exact h₂

lemma commitTasks : ∀ tasks : List MappingTask,
    Erases (Mmu.commitTasks looks d tasks) (ShrekOS.commitTasks d tasks)
  | [] => .pure ()
  | _ :: tasks =>
      .bind (.liftVm _) fun _ => .bind (.liftVm _) fun _ => .skip (fun _ => rfl) (commitTasks tasks)

lemma pdCommitMapping : Erases (Mmu.pdCommitMapping looks d) (ShrekOS.pdCommitMapping d) :=
  .bind (.liftVm _) fun tasks => .bind (commitTasks tasks) fun _ =>
    .bind (.liftVm _) fun _ => .liftVm _

lemma removePages : ∀ (fuel : ℕ) (v : UInt32) (prev : ℕ),
    Erases (Mmu.removePages looks d fuel v prev) (ShrekOS.removePages d fuel v prev)
  | 0, _, _ => .fault _
  | fuel + 1, v, _ =>
      .ite (.fault _) <| .bind (.liftVm _) fun _ => .bind (.liftVm _) fun _ => .ite (.pure _) <|
        .skip (fun _ => rfl) <| .skip (fun _ => rfl) <| .skip (fun _ => rfl) <|
        .ite (.pure _) (removePages fuel (v + 4096) _)

end Erases

/-- **Without the held translations** the call is `vmm_remove_user_page` as before. -/
theorem vmmRemoveUserPage_erases (looks : Point → List ℕ) (d : ℕ) (base : UInt32) :
    Erases (Mmu.vmmRemoveUserPage looks d base) (ShrekOS.vmmRemoveUserPage d base) := by
  refine .skip (fun _ => rfl) (.ite (.pure _) (.bind (.liftVm _) fun r => ?_))
  cases r with
  | error e => exact .pure _
  | ok v =>
      refine .ite (.pure _) (.bind (.liftVm _) fun _ => .bind (.removePages _ _ _) fun b => ?_)
      refine .ite (.bind (.liftVm _) fun _ => .pure _) (.bind (.liftVm _) fun r => ?_)
      cases r with
      | none => exact .bind (.liftVm _) fun _ => .pure _
      | some size =>
          refine .skip (fun _ => rfl) (.bind (.liftVm _) fun c => .ite ?_ ?_)
          · exact .bind (.liftVm _) fun _ => .bind (.liftVm _) fun _ => .pure _
          · exact .skip (fun _ => rfl) (.bind .pdCommitMapping fun _ => .pure _)

/-! ### What the processor reads -/

/-- The entries of two pages are the same place in memory. -/
def Vm.SameEntry (s : Vm) (d q w : ℕ) : Prop :=
  removeFlags (s.dirs d (q / numEntries)) = removeFlags (s.dirs d (w / numEntries)) ∧
    q % numEntries = w % numEntries

instance (s : Vm) (d q w : ℕ) : Decidable (s.SameEntry d q w) :=
  inferInstanceAs (Decidable (_ ∧ _))

lemma Vm.pageEntry_of_tables (h : s'.tables d = s.tables d) (w : ℕ) :
    s'.pageEntry d w = s.pageEntry d w := by
  have hd : s'.dirs d = s.dirs d := congrArg Prod.fst h
  have hp : s'.pt = s.pt := congrArg Prod.snd h
  exact pageEntry_congr (congrFun hd _) fun _ => by rw [hp]

lemma Vm.walk_of_tables (h : s'.tables d = s.tables d) : s'.walk d = s.walk d := by
  have hd : s'.dirs d = s.dirs d := congrArg Prod.fst h
  funext w
  rw [Vm.walk, Vm.walk, pageEntry_of_tables h, hd]

/-- A page is found when it is mapped. -/
lemma Vm.walk_ne_none {w : ℕ} (hw : Page w) : s.walk d w ≠ none ↔ s.pageEntry d w ≠ none := by
  have hlt : w / numEntries < numEntries := hw
  rw [Vm.walk, if_pos hlt, ne_eq, Option.map_eq_none_iff]

/-- A page is mapped after one write of nothing, when it was and the write was not to its
entry. -/
lemma pageEntry_wiped {q w : ℕ} (hd : s'.dirs d = s.dirs d)
    (hp : s'.pt = Function.update s.pt (removeFlags (s.dirs d (q / numEntries)))
      (Function.update (s.pt (removeFlags (s.dirs d (q / numEntries)))) (q % numEntries) 0)) :
    s'.pageEntry d w ≠ none ↔ s.pageEntry d w ≠ none ∧ ¬ s.SameEntry d q w := by
  have hentry : ¬ s.SameEntry d q w → s'.pageEntry d w = s.pageEntry d w := by
    intro hother
    refine pageEntry_congr (congrFun hd _) fun _ => ?_
    rw [hp]
    by_cases htab : removeFlags (s.dirs d (w / numEntries)) =
        removeFlags (s.dirs d (q / numEntries))
    · rw [htab, Function.update_self, Function.update_of_ne fun hi => hother ⟨htab.symm, hi.symm⟩]
    · rw [Function.update_of_ne htab]
  by_cases hsame : s.SameEntry d q w
  · have hnone : s'.pageEntry d w = none := by
      rw [Vm.pageEntry, ShrekOS.pageEntry, hp, hd, ← hsame.1, ← hsame.2, Function.update_self,
        Function.update_self]
      exact if_neg fun h => absurd h.2 (by decide)
    simp [hnone, hsame]
  · rw [hentry hsame]
    simp [hsame]

/-! ### The loop -/

section Loop

variable {first last : ℕ}

/-- The page is looked up in the loop, after its flush. -/
def LateInLoop (looks : Point → List ℕ) (first last w : ℕ) : Prop :=
  ∃ q, first ≤ q ∧ q ≤ last ∧ (w ≤ q ∧ w ∈ looks (.flushed q) ∨ w < q ∧ w ∈ looks (.queued q))

/-- The first round, and those after it. -/
lemma lateInLoop_succ {w : ℕ} (hle : first ≤ last) : LateInLoop looks first last w ↔
    (w ≤ first ∧ w ∈ looks (.flushed first) ∨ w < first ∧ w ∈ looks (.queued first)) ∨
      LateInLoop looks (first + 1) last w := by
  constructor
  · rintro ⟨q, h1, h2, h3⟩
    rcases h1.eq_or_lt with rfl | h1
    · exact .inl h3
    · exact .inr ⟨q, h1, h2, h3⟩
  · rintro (h | ⟨q, h1, h2, h3⟩)
    · exact ⟨first, le_rfl, hle, h⟩
    · exact ⟨q, by omega, h2, h3⟩

/-- There is nothing after the last round. -/
lemma not_lateInLoop {w : ℕ} (h : last < first) : ¬ LateInLoop looks first last w := by
  rintro ⟨q, h1, h2, -⟩
  omega

/-- What one round of the loop does to the held translations, on a page that is mapped. -/
lemma caches_round {walk : ℕ → Option (ℕ × ℕ)} {c : Tlb ℕ (ℕ × ℕ)} {w : ℕ} (hw : walk w ≠ none)
    (hle : w ≤ first) :
    (((c.fill walk (looks (.queued first))).flush first).fill walk
      (looks (.flushed first))).Caches w ↔ (w < first ∧ c.Caches w) ∨
        (w ≤ first ∧ w ∈ looks (.flushed first) ∨ w < first ∧ w ∈ looks (.queued first)) := by
  have hne : w ≠ first ↔ w < first := ⟨fun h => lt_of_le_of_ne hle h, ne_of_lt⟩
  rw [Tlb.caches_fill, Tlb.caches_flush, Tlb.caches_fill, hne]
  tauto

/-- A round, and what the rounds after it add. -/
lemma rounds_iff {w : ℕ} {C C₁ R L : Prop} (hround : w ≤ first → (C₁ ↔ (w < first ∧ C) ∨ R))
    (hR : R → w ≤ first) : (w < first + 1 ∧ C₁) ∨ L ↔ (w < first ∧ C) ∨ R ∨ L := by
  rw [Nat.lt_succ_iff, ← or_assoc]
  refine or_congr ⟨fun h => (hround h.1).mp h.2, fun h => ?_⟩ Iff.rfl
  have hle : w ≤ first := h.elim (·.1.le) hR
  exact ⟨hle, (hround hle).mpr h⟩

/-- The tasks of a removal. -/
def wipes (first n : ℕ) : List MappingTask :=
  (List.range' first n).map fun w => ⟨pageSize * w, 0, none⟩

lemma wipes_succ (first n : ℕ) :
    wipes first (n + 1) = ⟨pageSize * first, 0, none⟩ :: wipes (first + 1) n := by
  rw [wipes, List.range'_succ, List.map_cons, wipes]

/-- What the loop keeps: the tables, the batch, and that the held translations are right. -/
structure Removing (d : ℕ) (s₀ : Vm) (t : Mmu) : Prop where
  tables : t.vm.tables d = s₀.tables d
  batch : (t.vm.pds d).batchEnabled = true
  coherent : t.tlb.Coherent (s₀.walk d)

/-- What the loop leaves when it goes through: tasks for the pages up to the first end, and of
these pages the translations that were looked up late. -/
structure WentThrough (looks : Point → List ℕ) (d first last : ℕ) (s₀ : Vm) (t t' : Mmu) :
    Prop where
  ends : EndsAt s₀ d first last
  bound : last < 2 ^ 20
  tasks : (t'.vm.pds d).mappingTasks = (t.vm.pds d).mappingTasks ++ wipes first (last + 1 - first)
  caches : ∀ w ≤ last, s₀.walk d w ≠ none →
    (t'.tlb.Caches w ↔ (w < first ∧ t.tlb.Caches w) ∨ LateInLoop looks first last w)

/-- **The loop of `vmm_remove_user_page`** and the held translations. -/
lemma removePages_tlb {s₀ : Vm} : ∀ (fuel : ℕ) {v : UInt32} (prev : ℕ) {t : Mmu},
    Removing d s₀ t → v.toNat % pageSize = 0 →
    wp (Mmu.removePages looks d fuel v prev) (fun b t' => Removing d s₀ t' ∧
      (b = true → 0 < v.toNat ∧ ∃ last, WentThrough looks d (v.toNat / pageSize) last s₀ t t'))
      (fun _ _ => True) t := by
  -- by induction on the fuel, with what the processor holds after each round
  intro fuel
  induction fuel with
  | zero => exact fun _ _ _ _ => trivial
  | succ fuel ih =>
      intro v prev t h hv
      have hlt := v.toNat_lt
      rw [Mmu.removePages, wp_ite]
      refine ⟨fun _ => trivial, fun hover => ?_⟩
      have hpos : 0 < v.toNat := by
        refine Nat.pos_of_ne_zero fun h0 => absurd ?_ hover
        rw [gt_iff_lt, UInt32.lt_iff_toNat_lt, UInt32.toNat_sub, h0]
        decide
      have hpage : v.toNat / pageSize < 2 ^ 20 := by
        simp only [pageSize]
        omega
      have hentry : ∀ w, t.vm.pageEntry d w = s₀.pageEntry d w := pageEntry_of_tables h.tables
      rw [wp_bind, Mmu.wp_liftVm]
      refine pdGetMapping_read hlt (fun u hread => ?_) fun e hread => ?_
      · -- the page is mapped
        rw [wp_bind, Mmu.wp_liftVm]
        refine wp_imp (pdRemoveMapping_queued h.batch hlt) fun c s₁ hpost => ?_
        obtain ⟨htab₁, hb₁, hcase⟩ := hpost
        have htables : s₁.tables d = s₀.tables d := htab₁.trans h.tables
        rw [wp_ite]
        refine ⟨fun _ => ⟨⟨htables, hb₁, h.coherent⟩, by simp⟩, fun hneg => ?_⟩
        obtain ⟨-, -, -, htasks, -⟩ := hcase.resolve_left hneg
        simp only [Mmu.look, Mmu.flushTlb, wp_bind, wp_modify]
        rw [walk_of_tables htables]
        set first := v.toNat / pageSize
        set c₁ := ((t.tlb.fill (s₀.walk d) (looks (.queued first))).flush first).fill (s₀.walk d)
          (looks (.flushed first)) with hc₁
        have hv' : v.toNat = pageSize * first :=
          (Nat.mul_div_cancel' (Nat.dvd_of_mod_eq_zero hv)).symm
        have h₁ : Removing d s₀ ⟨s₁, c₁⟩ :=
          ⟨htables, hb₁, ((h.coherent.fill _).flush _).fill _⟩
        -- a page is held after the round if it was passed before, or if it is looked up too late
        have hround : ∀ w ≤ first, s₀.walk d w ≠ none →
            (c₁.Caches w ↔ (w < first ∧ t.tlb.Caches w) ∨
            (w ≤ first ∧ w ∈ looks (.flushed first) ∨ w < first ∧ w ∈ looks (.queued first))) :=
          fun w hle hw => caches_round hw hle
        rw [hentry] at hread
        rw [hv'] at htasks
        rw [wp_ite]
        constructor
        · -- the page marked as the end: the loop is left
          intro hend
          refine ⟨h₁, fun _ => ⟨hpos, first, ⟨le_rfl, fun w h1 h2 => ?_⟩, hpage, ?_,
            fun w hle hw => ?_⟩⟩
          · obtain rfl : first = w := le_antisymm h1 h2
            exact ⟨u, hread, iff_of_true hend rfl⟩
          · rw [Nat.add_sub_cancel_left, wipes_succ]
            exact htasks
          · rw [hround w hle hw, lateInLoop_succ le_rfl,
              or_iff_left (not_lateInLoop (Nat.lt_succ_self _))]
        · intro hend
          have hnext : (v + 4096).toNat = (v.toNat + 4096) % 2 ^ 32 := UInt32.toNat_add v 4096
          refine wp_imp (ih u h₁ (by simp only [pageSize] at *; omega)) fun b t' hpost => ?_
          obtain ⟨h', hthrough⟩ := hpost
          refine ⟨h', fun hb => ?_⟩
          obtain ⟨hpos', last, hw⟩ := hthrough hb
          -- the loop does not come back from the top of memory
          have hsucc : (v + 4096).toNat / pageSize = first + 1 := by
            simp only [pageSize, first] at *
            omega
          rw [hsucc] at hw
          have hle := hw.ends.1
          refine ⟨hpos, last, ⟨by omega, fun w h1 h2 => ?_⟩, hw.bound, ?_, fun w hwl hmap => ?_⟩
          · rcases h1.eq_or_lt with rfl | h1
            · exact ⟨u, hread, iff_of_false hend (by omega)⟩
            · exact hw.ends.2 w h1 h2
          · have hcount : last + 1 - first = last + 1 - (first + 1) + 1 := by omega
            rw [hw.tasks, htasks, hcount, wipes_succ, List.append_assoc]
            rfl
          · have hlate : LateInLoop looks first last w ↔ _ := lateInLoop_succ (by omega)
            rw [hw.caches w hwl hmap, hlate]
            exact rounds_iff (fun hle' => hround w hle' hmap) fun hr => hr.elim (·.1) (·.1.le)
      · -- the page is not mapped: the removal fails
        rw [wp_bind, Mmu.wp_liftVm]
        refine wp_imp (pdRemoveMapping_queued h.batch hlt) fun c s₁ hpost => ?_
        obtain ⟨htab₁, hb₁, hcase⟩ := hpost
        have hneg : c < 0 := by
          refine hcase.resolve_right ?_
          rintro ⟨-, -, ⟨x, hx, hpre⟩, -⟩
          simp [Vm.pageEntry_of_word hx hpre] at hread
        rw [wp_ite]
        exact ⟨fun _ => ⟨⟨htab₁.trans h.tables, hb₁, h.coherent⟩, by simp⟩,
          fun hno => absurd hneg hno⟩

/-! ### The commit -/

/-- The page is looked up during the commit, before its entry is written. -/
def LateInCommit (looks : Point → List ℕ) (d : ℕ) (s : Vm) (first n w : ℕ) : Prop :=
  ∃ q, first ≤ q ∧ q < first + n ∧ w ∈ looks (.written q) ∧
    ∀ q', first ≤ q' → q' ≤ q → ¬ s.SameEntry d q' w

/-- The first write, and those after it. -/
lemma lateInCommit_succ {n w : ℕ} : LateInCommit looks d s first (n + 1) w ↔
    ¬ s.SameEntry d first w ∧
      (w ∈ looks (.written first) ∨ LateInCommit looks d s (first + 1) n w) := by
  constructor
  · rintro ⟨q, h1, h2, h3, h4⟩
    refine ⟨h4 first le_rfl h1, ?_⟩
    rcases h1.eq_or_lt with rfl | h1
    · exact .inl h3
    · exact .inr ⟨q, h1, by omega, h3, fun q' h5 h6 => h4 q' (by omega) h6⟩
  · rintro ⟨hne, h | ⟨q, h1, h2, h3, h4⟩⟩
    · refine ⟨first, le_rfl, by omega, h, fun q' h5 h6 => ?_⟩
      obtain rfl : first = q' := le_antisymm h5 h6
      exact hne
    · refine ⟨q, by omega, by omega, h3, fun q' h5 h6 => ?_⟩
      rcases h5.eq_or_lt with rfl | h5
      · exact hne
      · exact h4 q' h5 h6

/-- **The loop of `pd_commit_mapping`** and the held translations: those that are added are of
pages whose entry still stands. -/
lemma commitTasks_tlb {w : ℕ} (hw : Page w) : ∀ (n : ℕ) {first : ℕ} {t : Mmu},
    first + n ≤ 2 ^ 20 →
    wp (Mmu.commitTasks looks d (wipes first n)) (fun _ t' => t'.tlb.Caches w ↔ t.tlb.Caches w ∨
        (t.vm.pageEntry d w ≠ none ∧ LateInCommit looks d t.vm first n w))
      (fun _ _ => False) t := by
  intro n
  induction n with
  | zero =>
      intro first t _
      refine (or_iff_left ?_).symm
      rintro ⟨-, q, h1, h2, -⟩
      omega
  | succ n ih =>
      intro first t hle
      have hlt : pageSize * first < 2 ^ 32 := by
        simp only [pageSize]
        omega
      have hdiv : pageSize * first / pageSize = first :=
        Nat.mul_div_cancel_left first FrameManager.pageSize_pos
      rw [wipes_succ, Mmu.commitTasks, wp_bind, Mmu.wp_liftVm, wp_entry, wp_bind, Mmu.wp_liftVm,
        wp_setPte]
      simp only [Mmu.look, wp_bind, wp_modify, pdeIndex_eq hlt, pteIndex_eq, hdiv]
      set table := removeFlags ((t.vm.pds d).directory (first / numEntries))
      set s₁ : Vm := { t.vm with
        pt := Function.update t.vm.pt table
          (Function.update (t.vm.pt table) (first % numEntries) 0) }
      have hmap : s₁.pageEntry d w ≠ none ↔ t.vm.pageEntry d w ≠ none ∧
        ¬ t.vm.SameEntry d first w :=
        pageEntry_wiped rfl rfl
      have hlate : LateInCommit looks d s₁ (first + 1) n w ↔
          LateInCommit looks d t.vm (first + 1) n w := Iff.rfl
      refine wp_imp (ih (by omega)) fun _ t' hpost => ?_
      rw [hpost, Tlb.caches_fill, Vm.walk_ne_none hw, hmap, hlate, lateInCommit_succ]
      tauto

end Loop

/-! ### The whole call -/

/-- At this place the page `w` was flushed, and its entry still stands. -/
def Late (s : Vm) (d first last w : ℕ) : Point → Prop
  | .entered => False
  | .queued q => w < q ∧ q ≤ last
  | .flushed q => w ≤ q ∧ q ≤ last
  | .forgotten => True
  | .freed => True
  | .written q => first ≤ q ∧ q ≤ last ∧ ∀ q', first ≤ q' → q' ≤ q → ¬ s.SameEntry d q' w

/-- No page of the region at `base` is looked up between its flush and the write of its
entry. -/
def NoLateLook (looks : Point → List ℕ) (d : ℕ) (s : Vm) (base : UInt32) : Prop :=
  ∀ last, EndsAt s d (base.toNat / pageSize) last →
    ∀ w, base.toNat / pageSize ≤ w → w ≤ last →
      ∀ p, Late s d (base.toNat / pageSize) last w p → w ∉ looks p

/-- No translation is held for a page of the region at `base`. -/
def Flushed (d : ℕ) (s : Vm) (base : UInt32) (c : Tlb ℕ (ℕ × ℕ)) : Prop :=
  ∀ last, EndsAt s d (base.toNat / pageSize) last →
    ∀ w, base.toNat / pageSize ≤ w → w ≤ last → ¬ c.Caches w

/-- The three stretches of the call in which a page can be looked up late. -/
lemma exists_late_iff {first last w : ℕ} (hfirst : first ≤ w) (hw : w ≤ last) :
    (∃ p, Late s d first last w p ∧ w ∈ looks p) ↔
      LateInLoop looks first last w ∨ w ∈ looks .forgotten ∨ w ∈ looks .freed ∨
        LateInCommit looks d s first (last + 1 - first) w := by
  constructor
  · rintro ⟨p, hlate, hlook⟩
    cases p with
    | entered => exact hlate.elim
    | queued q => exact .inl ⟨q, by have := hlate.1; omega, hlate.2, .inr ⟨hlate.1, hlook⟩⟩
    | flushed q => exact .inl ⟨q, hfirst.trans hlate.1, hlate.2, .inl ⟨hlate.1, hlook⟩⟩
    | forgotten => exact .inr (.inl hlook)
    | freed => exact .inr (.inr (.inl hlook))
    | written q =>
        obtain ⟨h1, h2, h3⟩ := hlate
        exact .inr (.inr (.inr ⟨q, h1, by omega, hlook, h3⟩))
  · rintro (⟨q, -, h2, ⟨h3, h4⟩ | ⟨h3, h4⟩⟩ | h | h | ⟨q, h1, h2, h3, h4⟩)
    · exact ⟨.flushed q, ⟨h3, h2⟩, h4⟩
    · exact ⟨.queued q, ⟨h3, h2⟩, h4⟩
    · exact ⟨.forgotten, trivial, h⟩
    · exact ⟨.freed, trivial, h⟩
    · exact ⟨.written q, ⟨h1, by omega, h4⟩, h3⟩

lemma SameSpace.tables (h : SameSpace s s') : s'.tables d = s.tables d := by
  rw [Vm.tables, Vm.tables, h.pt, h.dirs]

/-- An aborted batch leaves the tables alone. -/
lemma pdAbortMapping_tables (d : ℕ) (s : Vm) :
    wp (pdAbortMapping d) (fun _ s' => s'.tables d = s.tables d) (fun _ _ => True) s :=
  wp_imp (pdAbortMapping_spec d s) fun _ _ ⟨hdir, hpt, _⟩ => Prod.ext hdir hpt

/-- What is held after the call. -/
structure TlbOutcome (looks : Point → List ℕ) (d : ℕ) (base : UInt32) (s : Vm) (r : ℤ)
    (t' : Mmu) : Prop where
  flushed : r = 0 → (Flushed d s base t'.tlb ↔ NoLateLook looks d s base)
  coherent : r < 0 → t'.tlb.Coherent (t'.vm.walk d)

/-- A failure that leaves the tables alone. -/
lemma TlbOutcome.of_failed {base : UInt32} {r : ℤ} (hr : r < 0) (htab : t'.vm.tables d = s.tables d)
    (hc : t'.tlb.Coherent (s.walk d)) : TlbOutcome looks d base s r t' where
  flushed h0 := absurd h0 (ne_of_lt hr)
  coherent _ := by rwa [walk_of_tables htab]

/-- The end of a call that goes through: the commit, after the frame was given back. -/
lemma pdCommitMapping_tlb {first last : ℕ} {c : Tlb ℕ (ℕ × ℕ)} {base : UInt32}
    (hfirst : base.toNat / pageSize = first) (htab : t.vm.tables d = s.tables d)
    (hends : EndsAt s d first last) (hlast : last < 2 ^ 20)
    (htasks : (t.vm.pds d).mappingTasks = wipes first (last + 1 - first))
    (hloop : ∀ w ≤ last, first ≤ w → (c.Caches w ↔ LateInLoop looks first last w))
    (hheld : ∀ w ≤ last, first ≤ w → (t.tlb.Caches w ↔
      c.Caches w ∨ w ∈ looks .forgotten ∨ w ∈ looks .freed)) :
    wp (Mmu.pdCommitMapping looks d) (fun _ t' => TlbOutcome looks d base s 0 t')
      (fun _ _ => True) t := by
  have hdirs : t.vm.dirs d = s.dirs d := congrArg Prod.fst htab
  have hbound : first + (last + 1 - first) ≤ 2 ^ 20 := by
    have hle := hends.1
    omega
  have hcommit : wp (Mmu.commitTasks looks d (wipes first (last + 1 - first)))
      (fun _ t' => ∀ w, first ≤ w → w ≤ last → (t'.tlb.Caches w ↔ t.tlb.Caches w ∨
        LateInCommit looks d s first (last + 1 - first) w)) (fun _ _ => True) t := by
    refine wp_mono (wp_run _ t) (fun _ t' hrun w h1 h2 => ?_) fun _ _ h => h
    have hpage : Page w := page_of_lt (by omega)
    have hmapped : t.vm.pageEntry d w ≠ none := by
      obtain ⟨u, hu, -⟩ := hends.2 w h1 h2
      rw [pageEntry_of_tables htab, hu]
      exact Option.some_ne_none u
    have hlate : LateInCommit looks d t.vm first (last + 1 - first) w ↔
        LateInCommit looks d s first (last + 1 - first) w := by
      simp only [LateInCommit, Vm.SameEntry, hdirs]
    rw [wp_ok (commitTasks_tlb hpage _ hbound) hrun, hlate]
    simp [hmapped]
  rw [Mmu.pdCommitMapping, wp_bind, Mmu.wp_liftVm, wp_gets, htasks, wp_bind]
  refine wp_imp hcommit fun _ t₁ hheld₁ => ?_
  rw [wp_bind, Mmu.wp_liftVm, wp_gets, Mmu.wp_liftVm, wp_setPd]
  refine ⟨fun _ => ?_, fun hneg => absurd hneg (lt_irrefl 0)⟩
  have hpage : ∀ w, first ≤ w → w ≤ last →
      (¬ t₁.tlb.Caches w ↔ ∀ p, Late s d first last w p → w ∉ looks p) := by
    intro w h1 h2
    have hiff : t₁.tlb.Caches w ↔ ∃ p, Late s d first last w p ∧ w ∈ looks p := by
      rw [exists_late_iff h1 h2, hheld₁ w h1 h2, hheld w h2 h1, hloop w h2 h1]
      tauto
    rw [hiff, not_exists]
    exact forall_congr' fun p => not_and
  rw [Flushed, NoLateLook, hfirst]
  constructor
  · intro h last' hends' w h1 h2
    obtain rfl := hends.unique hends'
    exact (hpage w h1 h2).mp (h _ hends w h1 h2)
  · intro h last' hends' w h1 h2
    obtain rfl := hends.unique hends'
    exact (hpage w h1 h2).mpr (h _ hends w h1 h2)

/-- **Removing user pages while the processor holds translations.** -/
lemma vmmRemoveUserPage_coherent (hb : (t.vm.pds d).batchEnabled = false)
    (hc : t.tlb.Coherent (t.vm.walk d)) (base : UInt32) :
    wp (Mmu.vmmRemoveUserPage looks d base)
      (fun r t' => TlbOutcome looks d base t.vm r t') (fun _ _ => True) t := by
  -- whatever the processor looked up before the call
  have hc₀ := hc.fill (looks .entered)
  rw [Mmu.vmmRemoveUserPage, wp_bind, Mmu.look, wp_modify, wp_ite]
  refine ⟨fun _ => .of_failed (by decide) rfl hc₀, fun hbase => ?_⟩
  rw [not_or, not_lt, not_not, isPageAligned, decide_eq_true_eq] at hbase
  rw [wp_bind, Mmu.wp_liftVm]
  refine pdGetMapping_read base.toNat_lt (fun v hread => ?_) fun e _ =>
    .of_failed (by decide) rfl hc₀
  dsimp only
  rw [wp_ite]
  refine ⟨fun _ => .of_failed (by decide) rfl hc₀, fun _ => ?_⟩
  rw [wp_bind, Mmu.wp_liftVm, pdBeginMapping, wp_bind, wp_gets, wp_ite]
  refine ⟨fun hon => absurd hon (by simp [hb]), fun _ => ?_⟩
  rw [wp_bind, wp_setPd, wp_pure, wp_bind]
  -- the batch is on, and its queue is empty, as the directory was idle
  set s₁ : Vm := { t.vm with
    pds := Function.update t.vm.pds d { t.vm.pds d with batchEnabled := true, idle := by simp } }
  set t₁ : Mmu := ⟨s₁, t.tlb.fill (t.vm.walk d) (looks .entered)⟩
  have h₁ : Removing d t.vm t₁ := by
    refine ⟨?_, by simp [t₁, s₁], hc₀⟩
    exact Prod.ext (by funext i; simp [t₁, s₁, Vm.tables, Vm.dirs]) rfl
  have hempty : (t₁.vm.pds d).mappingTasks = [] := by
    simpa [t₁, s₁] using (t.vm.pds d).idle hb
  -- the loop queues the pages of the region, and the tables are as they were
  refine wp_imp (removePages_tlb (2 ^ 20 + 1) 0 h₁ hbase.2) fun b t₂ hpost => ?_
  obtain ⟨h₂, hthrough⟩ := hpost
  rw [wp_ite]
  constructor
  · intro _
    rw [wp_bind, Mmu.wp_liftVm]
    refine wp_imp (pdAbortMapping_tables d t₂.vm) fun _ s₃ htab₃ => ?_
    exact .of_failed (by decide) (htab₃.trans h₂.tables) h₂.coherent
  intro hbt
  obtain ⟨-, last, hw⟩ := hthrough (by simpa using hbt)
  rw [wp_bind, Mmu.wp_liftVm]
  -- the record of the frame goes; the tables do not change by it
  refine wp_mono (pdDeallocFrame_space d (removeFlags v) t₂.vm) (fun r s₃ hsp₃ => ?_)
    fun _ _ h => h.elim
  have htab₃ : s₃.tables d = t.vm.tables d := hsp₃.tables.trans h₂.tables
  cases r with
  | none =>
      dsimp only
      rw [wp_bind, Mmu.wp_liftVm]
      refine wp_imp (pdAbortMapping_tables d s₃) fun _ s₄ htab₄ => ?_
      exact .of_failed (by decide) (htab₄.trans htab₃) h₂.coherent
  | some size =>
      dsimp only
      rw [wp_bind, Mmu.look, wp_modify, wp_bind, Mmu.wp_liftVm, wp_liftFm, walk_of_tables htab₃]
      -- the processor may look up pages again while the frame goes back
      have hc₃ := h₂.coherent.fill (looks .forgotten)
      refine wp_any _ (fun c fm' => ?_) fun _ _ => trivial
      have hsp₄ : SameSpace s₃ { s₃ with fm := fm' } := .of_fm rfl
      have htab₄ : ({ s₃ with fm := fm' } : Vm).tables d = t.vm.tables d := hsp₄.tables.trans htab₃
      rw [wp_ite]
      constructor
      · intro _
        rw [wp_bind, Mmu.wp_liftVm]
        refine wp_imp (pdAllocFrame_space d (removeFlags v) size _) fun _ s₅ hsp₅ => ?_
        rw [wp_bind, Mmu.wp_liftVm]
        refine wp_imp (pdAbortMapping_tables d s₅) fun _ s₆ htab₆ => ?_
        exact .of_failed (by decide) (htab₆.trans (hsp₅.tables.trans htab₄)) hc₃
      · intro _
        rw [wp_bind, Mmu.look, wp_modify, wp_bind, walk_of_tables htab₄]
        -- every page of the region is still mapped at the commit
        have hmap : ∀ w ≤ last, base.toNat / pageSize ≤ w → t.vm.walk d w ≠ none := by
          intro w h1 h2
          obtain ⟨u, hu, -⟩ := hw.ends.2 w h2 h1
          have hlt := hw.bound
          rw [Vm.walk_ne_none (page_of_lt (by omega)), hu]
          exact Option.some_ne_none u
        refine wp_imp (pdCommitMapping_tlb (c := t₂.tlb) rfl htab₄ hw.ends hw.bound ?_
          (fun w h1 h2 => ?_) fun w h1 h2 => ?_) fun _ _ h => h
        · rw [hsp₄.tasks, hsp₃.tasks, hw.tasks, hempty, List.nil_append]
        -- a page that the loop passed was flushed, and no later look put it back
        · rw [hw.caches w h1 (hmap w h1 h2)]
          simp [not_lt.mpr h2]
        · rw [Tlb.caches_fill, Tlb.caches_fill]
          simp [hmap w h1 h2]
          tauto

/-- **The held translations after a removal**, from a state in which they are right. A call that
fails leaves them right. One that returns `0` leaves none for a removed page if and only if no
such page was looked up between its flush and the write of its entry. -/
theorem vmmRemoveUserPage_flushed_iff {base : UInt32} {r : ℤ}
    (hb : (t.vm.pds d).batchEnabled = false) (hc : t.tlb.Coherent (t.vm.walk d))
    (hrun : Mmu.vmmRemoveUserPage looks d base t = (.ok r, t')) :
    (r = 0 → (Flushed d t.vm base t'.tlb ↔ NoLateLook looks d t.vm base)) ∧
      (r < 0 → t'.tlb.Coherent (t'.vm.walk d)) := by
  have h := wp_ok (vmmRemoveUserPage_coherent hb hc base) hrun
  exact ⟨h.flushed, h.coherent⟩

/-- A process gets two pages. -/
def twoPages : List VmStep :=
  [.call (.newUserPage 0 0x1000000 2)
    [some 0x9000, some 0x9010, some 0x5000, some 0x9020, some 0x9030, some 0x9040, some 0x9050]]

/-- The state before the two pages are removed, with nothing held. -/
def twoPagesMmu (s : Vm) : Mmu where
  vm := { s with heap := [some 0x9060, some 0x9070, some 0x9080, some 0x9090] }
  tlb := ⟨[]⟩

/-- The removal of the two pages: the state before it, what it returns and what is held after
it. -/
lemma twoPages_removed (looks : Point → List ℕ) {H : List (ℕ × ℕ × ℕ)}
    (hrun : ((Machine.replay vmStep (bootVm 3 8) twoPages).map fun s =>
      ((Mmu.vmmRemoveUserPage looks 0 0x1000000 (twoPagesMmu s)).1.toOption,
        (Mmu.vmmRemoveUserPage looks 0 0x1000000 (twoPagesMmu s)).2.tlb.held)) =
      some (some 0, H)) :
    ∃ s t', vmMachine.Reachable s ∧ (s.pds 0).batchEnabled = false ∧
      (s.pageEntry 0 0x1000 = some 0x1000207 ∧ s.pageEntry 0 0x1001 = some 0x1001407) ∧
      Mmu.vmmRemoveUserPage looks 0 0x1000000 (twoPagesMmu s) = (.ok 0, t') ∧
      t'.tlb.held = H := by
  have hstate : ((Machine.replay vmStep (bootVm 3 8) twoPages).map fun s =>
      ((s.pds 0).batchEnabled, s.pageEntry 0 0x1000, s.pageEntry 0 0x1001)) =
        some (false, some 0x1000207, some 0x1001407) := by
    decide +kernel
  rw [Option.map_eq_some_iff] at hrun hstate
  obtain ⟨s, hs, heq⟩ := hrun
  obtain ⟨s', hs', hstate⟩ := hstate
  obtain rfl := Option.some.inj (hs.symm.trans hs')
  obtain ⟨hbatch, hpages⟩ := Prod.mk.inj hstate
  obtain ⟨hzero, hheld⟩ := Prod.mk.inj heq
  obtain ⟨t', ht'⟩ := run_of_toOption hzero
  refine ⟨s, t', ?_, hbatch, Prod.mk.inj hpages, ht', ?_⟩
  · refine Machine.reach_of_replay vmStep_sound twoPages (fun _ _ _ => trivial) (.init ?_) hs
    exact bootVm_init (by decide) (by decide) (by decide) (by decide)
  · rwa [ht'] at hheld

/-- A look at every other moment, also right before the first flush and right after the last
write, is harmless. -/
theorem vmmRemoveUserPage_flushed_iff_twoPages : ∃ s looks t',
    Mmu.vmmRemoveUserPage looks 0 0x1000000 (twoPagesMmu s) = (.ok 0, t') ∧
      (∀ p, p = .entered ∨ p = .queued 0x1000 ∨ p = .written 0x1001 → looks p = [0x1000, 0x1001]) ∧
      Flushed 0 (twoPagesMmu s).vm 0x1000000 t'.tlb := by
  set looks : Point → List ℕ := fun p =>
    if p = .entered ∨ p = .queued 0x1000 ∨ p = .written 0x1001 then [0x1000, 0x1001] else []
  obtain ⟨s, t', -, hb, -, hrun, -⟩ := twoPages_removed looks (H := []) (by decide +kernel)
  refine ⟨s, looks, t', hrun, fun p hp => if_pos hp, ?_⟩
  refine ((vmmRemoveUserPage_flushed_iff hb
    (fun _ _ h => absurd h List.not_mem_nil) hrun).1 rfl).mpr ?_
  intro last _ w h1 h2 p hlate hlook
  have hp : p = .entered ∨ p = .queued 0x1000 ∨ p = .written 0x1001 := by
    by_contra hno
    simp [looks, hno] at hlook
  rcases hp with rfl | rfl | rfl
  · exact hlate
  · exact absurd hlate.1 (not_lt.mpr h1)
  · have hw : w ≤ 0x1001 := by
      simp [looks] at hlook
      omega
    exact hlate.2.2 w h1 hw ⟨rfl, rfl⟩

/-- **A translation of a removed page stays**: the first page is looked up after its flush,
while the second one is removed. -/
theorem not_flushed_of_look : ∃ s looks t', vmMachine.Reachable s ∧
    Mmu.vmmRemoveUserPage looks 0 0x1000000 (twoPagesMmu s) = (.ok 0, t') ∧
      looks = (fun p => if p = .flushed 0x1001 then [0x1000] else []) ∧
      ¬ Flushed 0 (twoPagesMmu s).vm 0x1000000 t'.tlb := by
  obtain ⟨s, t', hs, -, ⟨hfirst, hsecond⟩, hrun, hheld⟩ := twoPages_removed
    (fun p => if p = .flushed 0x1001 then [0x1000] else []) (H := [(0x1000, 0x5007, 0x1000207)])
    (by decide +kernel)
  refine ⟨s, _, t', hs, hrun, rfl, fun h => ?_⟩
  have hends : EndsAt (twoPagesMmu s).vm 0 0x1000 0x1001 := by
    refine ⟨by decide, fun w h1 h2 => ?_⟩
    obtain rfl | rfl : w = 0x1000 ∨ w = 0x1001 := by omega
    · exact ⟨_, hfirst, by decide⟩
    · exact ⟨_, hsecond, by decide⟩
  refine h 0x1001 hends 0x1000 (by decide) (by decide) ⟨(0x5007, 0x1000207), ?_⟩
  rw [hheld]
  exact .head _

end ShrekOS
