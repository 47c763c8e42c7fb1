/-
Which requests the `new_pages` system call accepts, and what a refusal leaves.

* `FrameManager.freePages`: the pages in the free frames; `mem_freePages_iff`: they are the
  pages of user memory in no allocated frame, however the free ones are cut;
* `Words`: the counts of pages are words, in every run;
* `Supplied`, `Spends`: the pages that the heap has to give, and how many of them a command
  asks for;
* `LegalNewPages`: the requests that are legal, in the terms of the caller;
* `syscallNewPages_zero_iff`: **the call accepts exactly the legal requests**, and a refusal
  leaves the translations, the records of the directory and the free pages as they were. It
  returns if the heap has two pages for the record and three for each page.

The checks are spread over three functions; the last one, on the alignment of the base, fires
when a frame was already taken and recorded.
-/
import ShrekOS.Mem.KernelSpace
import ShrekOS.Mem.Orderly

namespace ShrekOS

open Kit Kit.Cmd Vm

variable {lim d : ℕ} {s s' : Vm}

/-! ### Free pages -/

namespace FrameManager

variable {fm fm' : FrameManager}

/-- The pages in the free frames. -/
def freePages (fm : FrameManager) : Set ℕ :=
  {w | ∃ p f, fm.frames p = some f ∧ f.status = .dealloc ∧ f.addr ≤ pageSize * w ∧
    pageSize * w < f.addr + pageSize * f.numPages}

/-- The leaf frames tile user memory: a page is free when no allocated frame has it. -/
theorem mem_freePages_iff (h : fm.Inv lim) (w : ℕ) : w ∈ fm.freePages ↔
    userMemStart ≤ pageSize * w ∧ pageSize * w < lim ∧ ∀ a m, fm.view.extent a = some m →
      ¬ (a ≤ pageSize * w ∧ pageSize * w < a + pageSize * m) := by
  constructor
  · rintro ⟨p, f, hp, hst, hlo, hhi⟩
    rw [h.ok.pages hp] at hhi
    have hbase : userMemStart ≤ f.addr := h.forest.base_le (blocks_of_some hp)
    have hend := h.end_le hp
    refine ⟨hbase.trans hlo, hhi.trans_le hend, fun a m ha hin => ?_⟩
    obtain ⟨-, q, g, -, -, hq, hg, rfl, rfl⟩ := View.of_extent h.ok ha
    change fm.frames q = some g at hq
    rw [h.ok.pages hq] at hin
    -- an allocated frame with the page would be the free one
    have hpq : p = q := h.forest.leaf_unique (x := pageSize * w) (blocks_of_some hp)
      (blocks_of_some hq) (by simp [Frame.block, hst]) (by simp [Frame.block, hg]) ⟨hlo, hhi⟩ hin
    subst hpq
    obtain rfl := Option.some.inj (hp.symm.trans hq)
    rw [hst] at hg
    exact FrameStatus.noConfusion hg
  · rintro ⟨hbase, hlim, hfree⟩
    obtain ⟨p, b, hp, hleaf, hlo, hhi⟩ := h.forest.cover _ hbase hlim
    obtain ⟨f, hf, rfl⟩ := blocks_eq_some_iff.mp hp
    have hpages := h.ok.pages hf
    obtain ⟨n, hn⟩ := h.ok.owned hf
    have hhi' : pageSize * w < f.addr + pageSize * f.numPages := by
      rw [hpages]
      exact hhi
    cases hst : f.status with
    | dealloc => exact ⟨p, f, hf, hst, hlo, hhi'⟩
    | alloc => exact absurd ⟨hlo, hhi'⟩ (hfree _ _ (View.extent_of_alloc h.ok hn hf hst))
    | parent => exact absurd ((state_eq_split_iff _).mpr hst) hleaf

/-- The free pages depend on the allocated extents alone. -/
lemma freePages_eq (h : fm.Inv lim) (h' : fm'.Inv lim) (hext : fm'.view.extent = fm.view.extent) :
    fm'.freePages = fm.freePages := by
  ext w
  rw [mem_freePages_iff h', mem_freePages_iff h, hext]

end FrameManager

/-! ### Counts -/

/-- The counts of pages are words. -/
def Words (s : Vm) : Prop := ∀ e, s.counts e < 2 ^ 32

namespace Words

/-- A directory is put back with a count that is a word. -/
lemma setPd (h : Words s) {pd : PageDirectory} (hpd : pd.numPages < 2 ^ 32) :
    Words { s with pds := Function.update s.pds d pd } := by
  intro e
  rw [counts_setPages]
  by_cases he : e = d
  · subst he
    rwa [Function.update_self]
  · rw [Function.update_of_ne he]
    exact h e

lemma kept {α : Type} {c : VmM α} (hc : KeepsLedger c) : Preserves Words c := by
  intro s h
  refine wp_imp (wlp_of_wp (hc s)) fun _ s' hledger e => ?_
  have hcounts : s'.counts = s.counts := congrArg (fun l => l.2.2) hledger
  rw [hcounts]
  exact h e

lemma liftFm {α : Type} (c : FmM α) : Preserves Words (Vm.liftFm c) := by
  intro s h
  rw [wlp, wp_liftFm]
  exact wp_any _ (fun _ _ => h) fun _ _ => trivial

lemma pdAllocFrame (d p n : ℕ) : Preserves Words (pdAllocFrame d p n) := by
  have hlt : ∀ k : ℕ, k % 2 ^ 32 < 2 ^ 32 := fun k => Nat.mod_lt k (by decide)
  intro s h
  rw [wlp, ShrekOS.pdAllocFrame, wp_bind, wp_gets, wp_bind, wp_setPd, wp_bind]
  refine wp_imp (kept .malloc _ (h.setPd (hlt _))) fun b s₁ h₁ => ?_
  rw [wp_ite]
  refine ⟨fun _ => h₁, fun _ => ?_⟩
  rw [wp_bind]
  refine wp_imp (kept .malloc s₁ h₁) fun b' s₂ h₂ => ?_
  rw [wp_ite]
  refine ⟨fun _ => h₂, fun _ => ?_⟩
  rw [wp_bind, wp_gets, wp_bind, wp_setPd, wp_pure]
  exact h₂.setPd (h₂ d)

lemma pdDeallocFrame (d p : ℕ) : Preserves Words (pdDeallocFrame d p) := by
  intro s h
  rw [wlp, ShrekOS.pdDeallocFrame, wp_bind, wp_gets]
  cases (s.pds d).pAddrList.find? fun m => m.pAddr = p with
  | none => exact h
  | some m =>
      dsimp only
      rw [wp_bind, wp_setPd, wp_pure]
      exact h.setPd (Nat.mod_lt _ (by decide))

lemma undoFrame (d p : ℕ) : Preserves Words (undoFrame d p) :=
  .bind (liftFm _) fun _ => .bind (pdDeallocFrame d p) fun _ => .pure _

lemma pdDeallocAllFrames (d : ℕ) : Preserves Words (pdDeallocAllFrames d) := by
  intro s h
  rw [wlp, ShrekOS.pdDeallocAllFrames, wp_bind, wp_gets, wp_bind, wp_setPd, wp_pure]
  exact h.setPd (Nat.two_pow_pos 32)

lemma deallocFrames : ∀ frames, Preserves Words (deallocFrames frames)
  | [] => .pure ()
  | _ :: frames => .bind (liftFm _) fun _ => deallocFrames frames

lemma removePages (d : ℕ) : ∀ fuel v prev, Preserves Words (removePages d fuel v prev)
  | 0, _, _ => .fault _
  | fuel + 1, _, _ => .ite (.fault _) (.bind (kept (.pdGetMapping _ _)) fun _ =>
      .bind (kept (.pdRemoveMapping _ _)) fun _ => .ite (.pure _) (.ite (.pure _)
        (removePages d fuel _ _)))

lemma withFrame (d n : ℕ) (noFrame noRecord : ℤ) {use : ℕ → VmM ℤ}
    (huse : ∀ a, Preserves Words (use a)) :
    Preserves Words (withFrame d n noFrame noRecord use) := by
  refine .bind (liftFm _) fun r => ?_
  cases r with
  | error e => exact .pure _
  | ok a =>
      exact .bind (pdAllocFrame _ _ _) fun _ =>
        .ite (.bind (liftFm _) fun _ => .pure _) (huse a)

end Words

/-- Every operation leaves words in the counts. -/
lemma perform_words (op : VmOp) : Preserves Words op.perform := by
  have habort : ∀ d : ℕ, Preserves Words (pdAbortMapping d) := fun d =>
    Words.kept (.pdAbortMapping d)
  have hcommit : ∀ d : ℕ, Preserves Words (pdCommitMapping d) := fun d =>
    Words.kept (.pdCommitMapping d)
  cases op with
  | mapSections d secs garbage =>
      refine .bind (.ite (.pure _) (.ite (.pure _) (Words.withFrame _ _ _ _ fun a =>
        .bind (Words.kept (.pdBeginMapping _)) fun _ => .ite
          (.bind (Words.undoFrame _ _) fun _ => .pure _) ?_))) fun _ => .pure _
      exact .bind (Words.kept (.mapPages _ _ _ _ _ _)) fun r => .ite
        (.bind (habort d) fun _ => .bind (Words.undoFrame _ _) fun _ => .pure _)
        (.bind (hcommit d) fun _ => .pure _)
  | newUserPage d base numPages =>
      refine .bind (.ite (.pure _) (.ite (.pure _) (.bind (Words.kept (.anyMapped _ _ _)) fun _ =>
        .ite (.pure _) (Words.withFrame _ _ _ _ fun a =>
          .bind (Words.kept (.pdBeginMapping _)) fun _ => .ite
            (.bind (Words.undoFrame _ _) fun _ => .pure _) ?_)))) fun _ => .pure _
      exact .bind (Words.kept (.mapUserPages _ _ _ _ _)) fun r => .ite
        (.bind (habort d) fun _ => .bind (Words.pdDeallocFrame _ _) fun _ =>
          .bind (Words.liftFm _) fun _ => .pure _)
        (.bind (hcommit d) fun _ => .pure _)
  | removeUserPage d base =>
      refine .bind (.ite (.pure _) (.bind (Words.kept (.pdGetMapping _ _)) fun r => ?_))
        fun _ => .pure _
      cases r with
      | error e => exact .pure _
      | ok v =>
          refine .ite (.pure _) (.bind (Words.kept (.pdBeginMapping _)) fun _ =>
            .bind (Words.removePages _ _ _ _) fun b => .ite (.bind (habort d) fun _ => .pure _)
              (.bind (Words.pdDeallocFrame _ _) fun r => ?_))
          cases r with
          | none => exact .bind (habort d) fun _ => .pure _
          | some size =>
              exact .bind (Words.liftFm _) fun _ => .ite
                (.bind (Words.pdAllocFrame _ _ _) fun _ => .bind (habort d) fun _ => .pure _)
                (.bind (hcommit d) fun _ => .pure _)
  | deepCopy dest src garbage =>
      exact .bind (.bind (.gets _) fun _ => Words.withFrame _ _ _ _ fun a =>
        .bind (Words.kept (.deepCopyFrom _ _ _ _ _)) fun _ =>
          .ite (.bind (Words.undoFrame _ _) fun _ => .pure _) (.pure _)) fun _ => .pure _
  | clearUserSpace d =>
      exact .bind (.bind (Words.pdDeallocAllFrames _) fun _ => .bind (Words.deallocFrames _)
        fun _ => .bind (Words.kept (.pdClearUserSpace _)) fun _ => .pure _) fun _ => .pure _

/-- **The counts of pages are words in every state of a run.** -/
theorem words_of_reach {G : Vm → VmStep → Prop} (h : vmMachine.Reach G s) : Words s := by
  refine Machine.Reach.inv (I := Words) (fun s hs e => ?_) ?_ h
  · rw [Vm.counts, (hs.fresh e).2.1]
    exact Nat.two_pow_pos 32
  · intro s a s' hs _ hstep
    cases a with
    | call op heap =>
        have hrun : op.perform { s with heap := heap } = (.ok (), s') := hstep
        exact wp_ok (Q := fun _ s' => Words s') (perform_words op { s with heap := heap } hs) hrun
    | scribble memory =>
        obtain rfl : s' = s.scribble memory := hstep
        exact hs

/-! ### The pages of the heap -/

/-- The heap has `k` pages to give, all different, and none of them is a page table. -/
structure Supplied (k : ℕ) (s : Vm) : Prop where
  long : k ≤ s.heap.length
  distinct : s.heap.Nodup
  pages : ∀ r ∈ s.heap, ∃ a, r = some a ∧ a % pageSize = 0 ∧ 0 < a ∧ a < 2 ^ 32 ∧
    s.live a = false

namespace Supplied

variable {k m : ℕ}

lemma mono (h : Supplied k s) (hm : m ≤ k) : Supplied m s := ⟨hm.trans h.long, h.distinct, h.pages⟩

/-- The first page of the heap, which becomes a page table or not. -/
lemma next (h : Supplied (k + 1) s) : ∃ a rs, s.heap = some a :: rs ∧
    (a % pageSize = 0 ∧ 0 < a ∧ a < 2 ^ 32 ∧ s.live a = false) ∧
    Supplied k { s with heap := rs } ∧
    Supplied k { s with heap := rs, live := Function.update s.live a true } := by
  obtain ⟨r, rs, hheap⟩ := List.exists_cons_of_length_pos (Nat.lt_of_lt_of_le k.succ_pos h.long)
  obtain ⟨a, rfl, ha⟩ := h.pages r (by rw [hheap]; exact .head rs)
  have hlong := h.long
  have hdistinct := h.distinct
  rw [hheap, List.length_cons] at hlong
  rw [hheap, List.nodup_cons] at hdistinct
  have hpages : ∀ r ∈ rs, ∃ b, r = some b ∧ b % pageSize = 0 ∧ 0 < b ∧ b < 2 ^ 32 ∧
      s.live b = false := fun r hr => h.pages r (by rw [hheap]; exact .tail _ hr)
  refine ⟨a, rs, hheap, ha, ⟨Nat.le_of_succ_le_succ hlong, hdistinct.2, hpages⟩,
    Nat.le_of_succ_le_succ hlong, hdistinct.2, fun r hr => ?_⟩
  obtain ⟨b, rfl, hal, hpos, hlt, hlive⟩ := hpages r hr
  -- the other pages are not the one that is given out
  have hne : b ≠ a := by
    rintro rfl
    exact hdistinct.1 hr
  exact ⟨b, rfl, hal, hpos, hlt, (Function.update_of_ne hne ..).trans hlive⟩

end Supplied

/-- A state in the middle of a call that began, if `P` holds, with enough pages: the heap has
`k` of them left. -/
structure Stocked (P : Prop) (lim k : ℕ) (s : Vm) : Prop where
  fm : s.fm.Inv lim
  supplied : P → Supplied k s

/-- The command asks the heap for at most `n` pages, and it stops only for want of one. -/
def Spends {α : Type} (P : Prop) (n : ℕ) (c : VmM α) : Prop :=
  ∀ lim k s, Stocked P lim (k + n) s →
    wp c (fun _ s' => Stocked P lim k s') (fun e _ => e = .badHeap ∧ ¬ P) s

namespace Spends

variable {α β : Type} {P : Prop} {m n : ℕ}

lemma pure (a : α) : Spends P n (Pure.pure a : VmM α) := fun _ _ _ h =>
  ⟨h.fm, fun hP => (h.supplied hP).mono (Nat.le_add_right _ _)⟩

lemma mono {c : VmM α} (hc : Spends P m c) (hm : m ≤ n) : Spends P n c := fun lim k s h =>
  hc lim k s ⟨h.fm, fun hP => (h.supplied hP).mono (Nat.add_le_add_left hm k)⟩

lemma bind {c : VmM β} {f : β → VmM α} (hc : Spends P m c) (hf : ∀ b, Spends P n (f b)) :
    Spends P (n + m) (c >>= f) := by
  intro lim k s h
  rw [wp_bind]
  rw [← Nat.add_assoc] at h
  exact wp_imp (hc lim (k + n) s h) fun b s' hs' => hf b lim k s' hs'

lemma ite {p : Prop} [Decidable p] {c c' : VmM α} (hc : Spends P n c) (hc' : Spends P n c') :
    Spends P n (if p then c else c') := by
  split_ifs
  · exact hc
  · exact hc'

/-- A command that leaves the frame manager and the heap alone. -/
lemma of_keeps {c : VmM α}
    (hc : Keeps (fun s : Vm => (s.fm, s.heap, s.live)) (fun _ => False) c) : Spends P 0 c := by
  intro lim k s h
  refine wp_mono (hc s) (fun _ s' hs' => ?_) fun _ _ he => he.elim
  obtain ⟨hfm, hheap⟩ := Prod.mk.inj hs'
  obtain ⟨hheap, hlive⟩ := Prod.mk.inj hheap
  refine ⟨hfm.symm ▸ h.fm, fun hP => ?_⟩
  obtain ⟨hlong, hdistinct, hpages⟩ := h.supplied hP
  exact ⟨hheap.symm ▸ hlong, hheap.symm ▸ hdistinct, hlive.symm ▸ hheap.symm ▸ hpages⟩

lemma gets (f : Vm → α) : Spends P 0 (Cmd.gets f : VmM α) := .of_keeps (.gets f)

lemma modify {f : Vm → Vm} (hf : ∀ s, ((f s).fm, (f s).heap, (f s).live) =
    (s.fm, s.heap, s.live)) : Spends P 0 (Cmd.modify f : VmM Unit) := .of_keeps (.modify hf)

lemma malloc : Spends P 1 Vm.malloc := by
  intro lim k s h
  rw [wp_malloc]
  cases hheap : s.heap with
  | nil =>
      refine ⟨rfl, fun hP => ?_⟩
      obtain ⟨a, rs, hcons, -⟩ := (h.supplied hP).next
      rw [hheap] at hcons
      cases hcons
  | cons r rs =>
      refine ⟨h.fm, fun hP => ?_⟩
      obtain ⟨a, rs', hcons, -, hrest, -⟩ := (h.supplied hP).next
      rw [hheap] at hcons
      obtain ⟨rfl, rfl⟩ := List.cons.inj hcons
      exact hrest

lemma memalign : Spends P 1 Vm.memalign := by
  intro lim k s h
  have hnext := fun hP => (h.supplied hP).next
  rw [wp_memalign]
  rcases hheap : s.heap with _ | ⟨_ | a, rs⟩
  · refine ⟨rfl, fun hP => ?_⟩
    obtain ⟨a, rs, hcons, -⟩ := hnext hP
    rw [hheap] at hcons
    cases hcons
  · refine ⟨h.fm, fun hP => ?_⟩
    obtain ⟨a, rs, hcons, -⟩ := hnext hP
    rw [hheap] at hcons
    cases hcons
  · have hsame : P → (a % pageSize = 0 ∧ 0 < a ∧ a < 2 ^ 32 ∧ s.live a = false) ∧
        Supplied k { s with heap := rs, live := Function.update s.live a true } := by
      intro hP
      obtain ⟨b, rs', hcons, hb, -, hrest⟩ := hnext hP
      rw [hheap] at hcons
      obtain ⟨hab, rfl⟩ := List.cons.inj hcons
      obtain rfl := Option.some.inj hab
      exact ⟨hb, hrest⟩
    dsimp only
    split_ifs with ha
    · exact ⟨h.fm, fun hP => (hsame hP).2⟩
    · exact ⟨rfl, fun hP => ha (hsame hP).1⟩

/-- A page table that is given back is no obstacle. -/
lemma free (table : Option ℕ) : Spends P 0 (Vm.free table) := by
  intro lim k s h
  rw [wp_free]
  cases table with
  | none => exact h
  | some a =>
      refine ⟨h.fm, fun hP => ?_⟩
      obtain ⟨hlong, hdistinct, hpages⟩ := h.supplied hP
      refine ⟨hlong, hdistinct, fun r hr => ?_⟩
      obtain ⟨b, rfl, hal, hpos, hlt, hlive⟩ := hpages r hr
      refine ⟨b, rfl, hal, hpos, hlt, ?_⟩
      by_cases hba : b = a
      · subst hba
        exact Function.update_self ..
      · exact (Function.update_of_ne hba ..).trans hlive

/-- The frame manager has its frames and lists in memory of its own. -/
lemma fmAlloc (n : ℕ) : Spends P 0 (liftFm (fmAlloc n)) := by
  intro lim k s h
  refine wp_imp (liftFm_fmAlloc h.fm n) fun _ s' ⟨hs', hfm, _⟩ => ⟨hfm, fun hP => ?_⟩
  obtain ⟨hlong, hdistinct, hpages⟩ := h.supplied hP
  rw [hs']
  exact ⟨hlong, hdistinct, hpages⟩

lemma fmDealloc (a : ℕ) : Spends P 0 (liftFm (fmDealloc a)) := by
  intro lim k s h
  refine wp_imp (liftFm_fmDealloc h.fm a) fun _ s' ⟨hs', hfm, _⟩ => ⟨hfm, fun hP => ?_⟩
  obtain ⟨hlong, hdistinct, hpages⟩ := h.supplied hP
  rw [hs']
  exact ⟨hlong, hdistinct, hpages⟩

lemma setPd (d : ℕ) (pd : PageDirectory) : Spends P 0 (Vm.setPd d pd) := modify fun _ => rfl

lemma setPte (t j v : ℕ) : Spends P 0 (Vm.setPte t j v) := modify fun _ => rfl

lemma pdAllocFrame (d a n : ℕ) : Spends P 2 (pdAllocFrame d a n) :=
  .bind (.gets _) fun _ => .bind (setPd _ _) fun _ => .bind malloc fun _ => .ite (pure _)
    (.bind (n := 0) malloc fun _ => .ite (pure _)
      (.bind (.gets _) fun _ => .bind (setPd _ _) fun _ => pure _))

lemma pdDeallocFrame (d a : ℕ) : Spends P 0 (pdDeallocFrame d a) := by
  refine .bind (n := 0) (.gets _) fun pd => ?_
  cases pd.pAddrList.find? fun m => m.pAddr = a with
  | none => exact pure _
  | some m => exact .bind (setPd _ _) fun _ => pure _

lemma anyMapped (d : ℕ) : ∀ k v, Spends P 0 (anyMapped d k v)
  | 0, _ => pure _
  | k + 1, _ => by
      refine .bind (n := 0) (.bind (n := 0) (.gets _) fun _ => .ite (pure _)
        (.bind (.gets _) fun _ => .ite (pure _) (pure _))) fun r => ?_
      cases r with
      | ok v => exact pure _
      | error e => exact anyMapped d k _

/-- A page takes its page table, if it has none, and the two parts of its task. -/
lemma pdCreateMapping (d v p f g : ℕ) : Spends P 3 (pdCreateMapping d v p f g) := by
  have htable : Spends P 1 (createTable d (pdeIndex v) g) := by
    refine .bind (n := 1) (.gets _) fun pde => .ite (pure _) (.bind (n := 0) memalign fun r => ?_)
    cases r with
    | none => exact pure _
    | some a =>
        have hclear : Spends P 0 (clearTable a) := modify fun _ => rfl
        have hentry : ∀ i v, Spends P 0 (setEntry d i v) := fun i v =>
          .bind (n := 0) (.gets _) fun _ => setPd _ _
        exact .bind (n := 0) hclear fun _ => .bind (n := 0) (hentry _ _) fun _ => pure _
  have htask : ∀ t u r, Spends P 2 (recordMapping d v t u r) := fun t u r =>
    .bind (n := 2) (.gets _) fun _ => .ite
      (.bind (n := 1) malloc fun _ => .ite (pure _) (.bind (n := 0) malloc fun _ => .ite
        (.bind (n := 0) (free r) fun _ => pure _)
        (.bind (n := 0) (.gets _) fun _ => .bind (n := 0) (setPd _ _) fun _ => pure _)))
      (.mono (.bind (n := 0) (setPte _ _ _) fun _ => pure _) (Nat.zero_le 2))
  refine .ite (pure _) (.bind (n := 2) htable fun r => ?_)
  rcases r with _ | ⟨pde, r⟩
  · exact pure _
  · exact htask _ _ _

lemma mapUserPages (d : ℕ) (base : UInt32) (a n : ℕ) :
    ∀ k, Spends P (3 * k) (mapUserPages d base a n k)
  | 0 => pure _
  | k + 1 => .bind (n := 3 * k) (pdCreateMapping _ _ _ _ _) fun _ =>
      .ite (pure _) (mapUserPages d base a n k)

lemma pdAbortMapping (d : ℕ) : Spends P 0 (pdAbortMapping d) := by
  have hfree : ∀ tasks, Spends P 0 (freeResources tasks) := by
    intro tasks
    induction tasks with
    | nil => exact pure _
    | cons t tasks ih => exact .bind (n := 0) (free _) fun _ => ih
  exact .bind (n := 0) (.gets _) fun _ => .bind (n := 0) (hfree _) fun _ =>
    .bind (n := 0) (.gets _) fun _ => setPd _ _

lemma pdCommitMapping (d : ℕ) : Spends P 0 (pdCommitMapping d) := by
  have hcommit : ∀ tasks, Spends P 0 (commitTasks d tasks) := by
    intro tasks
    induction tasks with
    | nil => exact pure _
    | cons t tasks ih =>
        exact .bind (n := 0) (.gets _) fun _ => .bind (n := 0) (setPte _ _ _) fun _ => ih
  exact .bind (n := 0) (.gets _) fun _ => .bind (n := 0) (hcommit _) fun _ =>
    .bind (n := 0) (.gets _) fun _ => setPd _ _

/-- **What a request for pages asks of the heap**: three pages for each page, and two for the
record of the frame. -/
lemma vmmNewUserPage (d : ℕ) (base numPages : UInt32) :
    Spends P (3 * numPages.toNat + 2) (vmmNewUserPage d base numPages) := by
  have huse : ∀ a, Spends P (3 * numPages.toNat) (do
      if (← pdBeginMapping d) < 0 then do
        undoFrame d a
        Pure.pure (-4)
      else do
      let r ← ShrekOS.mapUserPages d base a numPages.toNat numPages.toNat
      if r < 0 then do
        ShrekOS.pdAbortMapping d
        let _ ← ShrekOS.pdDeallocFrame d a
        let _ ← liftFm (ShrekOS.fmDealloc a)
        Pure.pure r
      else do
      ShrekOS.pdCommitMapping d
      Pure.pure 0) := by
    intro a
    have hbegin : Spends P 0 (pdBeginMapping d) := .bind (n := 0) (.gets _) fun _ =>
      .ite (pure _) (.bind (n := 0) (setPd _ _) fun _ => pure _)
    have hundo : Spends P 0 (undoFrame d a) := .bind (n := 0) (fmDealloc a) fun _ =>
      .bind (n := 0) (pdDeallocFrame d a) fun _ => pure _
    refine .bind hbegin fun _ => .ite
      (.mono (.bind (n := 0) hundo fun _ => pure _) (Nat.zero_le _)) ?_
    refine .mono (.bind (n := 0) (m := 3 * numPages.toNat) (mapUserPages d base a _ _)
      fun r => .ite ?_ ?_) (Nat.zero_add _).le
    · exact .bind (n := 0) (pdAbortMapping d) fun _ => .bind (n := 0) (pdDeallocFrame d a) fun _ =>
        .bind (n := 0) (fmDealloc a) fun _ => pure _
    · exact .bind (n := 0) (pdCommitMapping d) fun _ => pure _
  refine .ite (pure _) (.ite (pure _) (.bind (n := 3 * numPages.toNat + 2) (m := 0)
    (anyMapped d _ _) fun _ => .ite (pure _) (.bind (n := 3 * numPages.toNat + 2) (m := 0)
      (fmAlloc _) fun r => ?_)))
  cases r with
  | error e => exact pure _
  | ok a =>
      exact .bind (n := 3 * numPages.toNat) (pdAllocFrame d a _) fun _ => .ite
        (.mono (.bind (n := 0) (fmDealloc a) fun _ => pure _) (Nat.zero_le _)) (huse a)

end Spends

/-! ### The system call -/

/-- The requests for `len` bytes of new pages at `base` that are legal for the process of the
directory `d`. -/
structure LegalNewPages (s : Vm) (d : ℕ) (base : UInt32) (len : Int32) : Prop where
  aligned : base.toNat % pageSize = 0
  user : userMemStart ≤ base.toNat
  pos : 0 < len.toInt
  whole : len.toInt % pageSize = 0
  few : len.toInt / pageSize ≤ 0xFFFF
  fits : base.toNat + len.toInt ≤ 2 ^ 32
  unmapped : ∀ w : ℕ, base.toNat ≤ pageSize * w → pageSize * w < base.toNat + len.toInt →
    s.pageEntry d w = none
  room : s.fm.HasRoom (len.toInt / pageSize).toNat

/-- What a refusal leaves: the translations, the records of the directory `d` with their count,
and the free pages. -/
structure Refused (d : ℕ) (s s' : Vm) : Prop where
  pages : ∀ {e w}, Page w → s'.pageEntry e w = s.pageEntry e w
  records : (s'.pds d).pAddrList = (s.pds d).pAddrList
  count : (s'.pds d).numPages = (s.pds d).numPages
  free : s'.fm.freePages = s.fm.freePages

/-- Whether pages can be mapped has nothing to do with the answers of the heap. -/
lemma canMap_heap (heap : List (Option ℕ)) (d base n : ℕ) :
    CanMap { s with heap := heap } d base n ↔ CanMap s d base n :=
  ⟨fun h => ⟨h.aligned, h.pos, h.few, h.fits, h.unmapped, h.room⟩,
    fun h => ⟨h.aligned, h.pos, h.few, h.fits, h.unmapped, h.room⟩⟩

/-- Legal requests are those that `vmm_new_user_page` can map, behind the checks of the
handler. -/
lemma legalNewPages_iff {base : UInt32} {len : Int32} (huser : userMemStart ≤ base.toNat)
    (hpos : 0 < len.toInt) (hwhole : len.toInt % pageSize = 0) :
    LegalNewPages s d base len ↔ CanMap s d base.toNat (len.toInt / pageSize).toNat := by
  have hsize := FrameManager.pageSize_pos
  obtain ⟨n, hn⟩ := Int.eq_ofNat_of_zero_le (Int.ediv_nonneg hpos.le (Int.natCast_nonneg pageSize))
  have hlen : len.toInt = ((pageSize * n : ℕ) : ℤ) := by
    rw [← Int.mul_ediv_add_emod len.toInt pageSize, hwhole, hn, add_zero, Nat.cast_mul]
  have hnum : (len.toInt / pageSize).toNat = n := by rw [hn, Int.toNat_natCast]
  have hn0 : 0 < n := by
    refine Nat.pos_of_ne_zero fun h0 => ?_
    rw [hlen, h0, mul_zero] at hpos
    exact lt_irrefl 0 hpos
  rw [hnum]
  constructor
  · intro h
    have hfits := h.fits
    rw [hlen] at hfits
    refine ⟨h.aligned, hn0, ?_, by exact_mod_cast hfits, fun i hi => ?_, hnum ▸ h.room⟩
    · have hfew := h.few
      rw [hn] at hfew
      exact_mod_cast hfew
    · have hpage : pageSize * (base.toNat / pageSize + i) = base.toNat + pageSize * i := by
        rw [mul_add, Nat.mul_div_cancel' (Nat.dvd_of_mod_eq_zero h.aligned)]
      have hmul : pageSize * i < pageSize * n := Nat.mul_lt_mul_of_pos_left hi hsize
      have hlt : pageSize * (base.toNat / pageSize + i) < base.toNat + pageSize * n := by omega
      refine h.unmapped _ (by omega) ?_
      rw [hlen]
      exact_mod_cast hlt
  · intro h
    have hfits := h.fits
    refine ⟨h.aligned, huser, hpos, hwhole, ?_, ?_, fun w h1 h2 => ?_, hnum.symm ▸ h.room⟩
    · rw [hn]
      exact_mod_cast h.few
    · rw [hlen]
      exact_mod_cast hfits
    · rw [hlen] at h2
      have hlt : pageSize * w < base.toNat + pageSize * n := by exact_mod_cast h2
      have hbase : base.toNat = pageSize * (base.toNat / pageSize) :=
        (Nat.mul_div_cancel' (Nat.dvd_of_mod_eq_zero h.aligned)).symm
      rw [hbase, ← mul_add] at hlt
      rw [hbase] at h1
      have hle := Nat.le_of_mul_le_mul_left h1 hsize
      have hltn := Nat.lt_of_mul_lt_mul_left hlt
      have hentry := h.unmapped (w - base.toNat / pageSize) (by omega)
      rwa [Nat.add_sub_cancel' hle] at hentry

/-- **`new_pages` accepts exactly the legal requests**, in every state of a run in which the
heap never fails; a refusal leaves everything as it was. -/
theorem syscallNewPages_zero_iff (h : vmMachine.Reach (fun _ a => a.Sound) s)
    {heap : List (Option ℕ)} (hheap : ∀ r ∈ heap, r ≠ none) (d : ℕ) (base : UInt32)
    (len : Int32) :
    wp (syscallNewPages d base len.toInt) (fun r s' =>
      (r = 0 ↔ LegalNewPages s d base len) ∧ (r < 0 → Refused d s s'))
      (fun e _ => e = .badHeap ∧
        ¬ Supplied (3 * (len.toInt / pageSize).toNat + 2) { s with heap := heap })
      { s with heap := heap } := by
  obtain ⟨lim, ho⟩ := orderly_of_sound h
  have hwords := words_of_reach h
  have hrefused : ∀ {c : ℤ}, c < 0 → ¬ LegalNewPages s d base len →
      (c = 0 ↔ LegalNewPages s d base len) ∧ (c < 0 → Refused d s { s with heap := heap }) :=
    fun hc hno => ⟨iff_of_false hc.ne hno, fun _ => ⟨fun _ => rfl, rfl, rfl, rfl⟩⟩
  rw [syscallNewPages, wp_ite]
  refine ⟨fun hlow => hrefused (by decide) fun hl => ?_, fun hlow => ?_⟩
  · exact absurd hl.user (not_le.mpr hlow)
  rw [wp_ite]
  refine ⟨fun hlen => hrefused (by decide) fun hl => ?_, fun hlen => ?_⟩
  · exact hlen.elim (fun hneg => absurd hl.pos (not_lt.mpr hneg)) fun hno => hno hl.whole
  rw [not_or, not_le, not_not] at hlen
  obtain ⟨hpos, hwhole⟩ := hlen
  have hiff : LegalNewPages s d base len ↔ _ :=
    legalNewPages_iff (not_lt.mp hlow) hpos hwhole
  have hnum : (UInt32.ofNat (len.toInt / pageSize).toNat).toNat = (len.toInt / pageSize).toNat := by
    have hmax := len.toInt_lt
    refine UInt32.toNat_ofNat_of_lt' ?_
    simp only [pageSize, UInt32.size]
    omega
  rw [hiff, wp_bind]
  set P : Prop := Supplied (3 * (len.toInt / pageSize).toNat + 2) { s with heap := heap }
  -- if the heap has enough pages then it has them all along
  have hstops := Spends.vmmNewUserPage (P := P) d base (UInt32.ofNat (len.toInt / pageSize).toNat)
    lim 0 { s with heap := heap } ⟨ho.fm, fun h => by rwa [hnum, Nat.zero_add]⟩
  refine wp_mono (wp_both (vmmNewUserPage_created (ho.ledger heap) (ho.settled hheap) d
    fun _ _ _ => not_lt.mp hlow) hstops) (fun r s' hpost => ?_) fun _ _ he => he.2
  rw [hnum, canMap_heap] at hpost
  obtain ⟨⟨hledger, -, ⟨hneg, hno, hsame⟩ | ⟨rfl, hcan, -⟩⟩, -⟩ := hpost
  · rw [wp_ite]
    refine ⟨fun _ => ⟨iff_of_false (by decide) hno, fun _ => ?_⟩, fun hge => absurd hneg hge⟩
    exact ⟨hsame.pages, congrFun hsame.lists d, hsame.counts d (hwords d),
      FrameManager.freePages_eq ho.fm hledger.fm hsame.extent⟩
  · rw [wp_ite]
    refine ⟨fun hneg => absurd hneg (lt_irrefl 0), fun _ => ⟨iff_of_true rfl hcan, ?_⟩⟩
    exact fun hneg => absurd hneg (lt_irrefl 0)

/-- The answers of the heap to a request for a page. -/
def onePageHeap : List (Option ℕ) :=
  [some 0x9000, some 0x9010, some 0x5000, some 0x9020, some 0x9030]

/-- After boot the first page of user space can be asked for, and a page that begins in the
middle of it is refused. -/
theorem syscallNewPages_zero_iff_boot :
    (∃ s', syscallNewPages 0 0x1000000 (0x1000 : Int32).toInt
        { bootVm 3 8 with heap := onePageHeap } = (.ok 0, s') ∧
      LegalNewPages (bootVm 3 8) 0 0x1000000 0x1000) ∧
    ∃ s', syscallNewPages 0 0x1000800 (0x1000 : Int32).toInt
        { bootVm 3 8 with heap := onePageHeap } = (.ok (-2), s') ∧
      Refused 0 (bootVm 3 8) s' := by
  have hreach : vmMachine.Reach (fun _ a => a.Sound) (bootVm 3 8) :=
    .init (bootVm_init (by decide) (by decide) (by decide) (by decide))
  have hheap : ∀ r ∈ onePageHeap, r ≠ none := by decide
  constructor
  · have hok : (syscallNewPages 0 0x1000000 (0x1000 : Int32).toInt
        { bootVm 3 8 with heap := onePageHeap }).1.toOption = some 0 := by decide +kernel
    obtain ⟨s', hrun⟩ := run_of_toOption hok
    exact ⟨s', hrun, (wp_ok (syscallNewPages_zero_iff hreach hheap _ _ _) hrun).1.mp rfl⟩
  · have hok : (syscallNewPages 0 0x1000800 (0x1000 : Int32).toInt
        { bootVm 3 8 with heap := onePageHeap }).1.toOption = some (-2) := by decide +kernel
    obtain ⟨s', hrun⟩ := run_of_toOption hok
    exact ⟨s', hrun, (wp_ok (syscallNewPages_zero_iff hreach hheap _ _ _) hrun).2 (by decide)⟩

end ShrekOS
