/-
`fork` copies the address space, up to the contents of the pages.

* `vmmDeepCopy_lift`: `vmm_deep_copy` with contents does what it does without, and copies
  all mapped pages in order;
* `ForkCopies`: the copy has the pages, flags and contents of the source, in a frame of its
  own, and the source is as before;
* `Undisturbed`: no page of the source is overwritten with other contents;
* `forkCopies_iff`: **a fork copies the address space** if and only if it does not disturb
  the source, in every state in which the page tables are apart;
* `Isolated.undisturbed`: that is so where processes are isolated;
* `forkCopies_of_careful`: **every fork in a careful run copies the address space**.
-/
import ShrekOS.Mem.Idle
import ShrekOS.Mem.IsolationRuns
import ShrekOS.Mem.PageCopies

namespace ShrekOS

open Kit Kit.Cmd Vm

variable {lim dest src a : ℕ} {s s' : Vm} {t t' : Store} {garbage : ℕ → ℕ}

/-! ### The pages that are copied -/

/-- The number of mapped user pages. -/
def mappedPages (s : Vm) (src : ℕ) : ℕ := rank s src (2 ^ 20)

/-- All pages that a fork copies, and where to, in order. -/
def forkMoves (s : Vm) (src a : ℕ) : List (ℕ × ℕ) :=
  moves s src a (numEntries * numKernelPde) (numEntries * (numEntries - numKernelPde))

/-- Only user pages are mapped. -/
lemma userPage_of_userMap {w p : ℕ} (h : s.userMap src w = some p) : UserPage w :=
  (userMap_eq_some.mp h).1

lemma UserPage.lt {w : ℕ} (h : UserPage w) : w < 2 ^ 20 := by
  simp only [UserPage, numEntries] at h
  omega

lemma mem_forkMoves {x : ℕ × ℕ} : x ∈ forkMoves s src a ↔
    ∃ w p, s.userMap src w = some p ∧ (p, nthPage a (rank s src w)) = x := by
  simp only [forkMoves, moves, List.mem_filterMap, List.mem_range'_1, Option.map_eq_some_iff]
  constructor
  · rintro ⟨w, -, p, hp, hx⟩
    exact ⟨w, p, hp, hx⟩
  · rintro ⟨w, p, hp, hx⟩
    have hu := userPage_of_userMap hp
    refine ⟨w, ?_, p, hp, hx⟩
    simp only [UserPage, numEntries, numKernelPde] at *
    omega

/-- The number of a mapped page among the mapped ones. -/
lemma rank_lt {w p : ℕ} (h : s.userMap src w = some p) : rank s src w < mappedPages s src := by
  have hmapped : Mapped s src w := by simp [Mapped, h]
  have hsucc : rank s src (w + 1) = rank s src w + 1 := by
    rw [rank, Nat.count_succ, if_pos hmapped, rank]
  have hle : rank s src (w + 1) ≤ mappedPages s src :=
    Nat.count_monotone _ (Nat.succ_le_of_lt (userPage_of_userMap h).lt)
  omega

lemma rank_inj {w v p q : ℕ} (hw : s.userMap src w = some p) (hv : s.userMap src v = some q)
    (h : rank s src w = rank s src v) : w = v :=
  Nat.count_injective (p := Mapped s src) (by simp [Mapped, hw]) (by simp [Mapped, hv]) h

/-- The pages of a frame below the end of memory are different. -/
lemma nthPage_eq {n k : ℕ} (hle : a + pageSize * n ≤ 2 ^ 32) (hk : k < n) :
    nthPage a k = a + pageSize * k := by
  rw [nthPage, Nat.mod_eq_of_lt]
  have hpos := FrameManager.pageSize_pos
  have hmul : pageSize * k < pageSize * n := Nat.mul_lt_mul_of_pos_left hk hpos
  omega

/-- No page of the frame is written twice. -/
lemma forkMoves_nodup {n : ℕ} (hle : a + pageSize * n ≤ 2 ^ 32) (hn : mappedPages s src ≤ n) :
    ((forkMoves s src a).map Prod.snd).Nodup := by
  rw [forkMoves, moves, List.map_filterMap]
  refine List.Nodup.filterMap (fun w v q hw hv => ?_) List.nodup_range'
  simp only [Option.mem_def, Option.map_map, Option.map_eq_some_iff, Function.comp_apply] at hw hv
  obtain ⟨p, hp, hq⟩ := hw
  obtain ⟨p', hp', hq'⟩ := hv
  refine rank_inj hp hp' (Nat.eq_of_mul_eq_mul_left FrameManager.pageSize_pos ?_)
  rw [nthPage_eq hle ((rank_lt hp).trans_le hn)] at hq
  rw [nthPage_eq hle ((rank_lt hp').trans_le hn)] at hq'
  omega

/-! ### The whole copy -/

/-- **`vmm_deep_copy`** does with the page tables what it does without contents, and copies
all pages to the frame that the frame manager hands out. -/
lemma vmmDeepCopy_lift (h : LedgerInv lim t.vm) (hs : Settled t.vm) (hne : src ≠ dest)
    {Q : ℤ → Vm → Prop} {E : Fault → Vm → Prop}
    (hrun : wp (vmmDeepCopy dest src garbage) Q E t.vm) :
    wp (Store.vmmDeepCopy dest src garbage) (fun r t' => Q r t'.vm ∧ (r = 0 →
      ∃ a fm', fmAlloc (t.vm.counts src) t.vm.fm = (.ok (.ok a), fm') ∧
        t'.bytes = copyBlocks t.bytes (forkMoves t.vm src a))) (fun e t' => E e t'.vm) t := by
  rw [vmmDeepCopy, wp_bind, wp_gets, withFrame, wp_bind] at hrun
  rw [Store.vmmDeepCopy, wp_bind, wp_liftVm, wp_gets, wp_bind, wp_liftVm]
  refine wp_mono (wp_both (wp_both (liftFm_fmAlloc (E := fun _ _ => True) h.fm _) (wp_run _ t.vm))
    hrun) (fun r s₁ hpost => ?_) fun _ _ he => he.2
  obtain ⟨⟨⟨hsame, hfm, hr⟩, halloc⟩, hrun⟩ := hpost
  rcases r with c | a
  · exact ⟨hrun, fun hzero => absurd hzero (by decide)⟩
  dsimp only at hrun ⊢
  have hfst : (fmAlloc (t.vm.counts src) t.vm.fm).1 = .ok (.ok a) := congrArg Prod.fst halloc
  rw [wp_bind] at hrun ⊢
  rw [wp_liftVm]
  have hg₁ : Generous s₁ := by
    rw [hsame]
    exact hs.generous
  refine wp_mono (wp_both (pdAllocFrame_generous hg₁ dest a _) hrun)
    (fun r s₂ hpost => ?_) fun _ _ he => he.2
  obtain ⟨⟨hr₂, hsp₂, hg₂, hf₂, hl₂, hc₂⟩, hrun⟩ := hpost
  subst hr₂
  rw [wp_ite] at hrun ⊢
  have hcopy := hrun.2 (lt_irrefl 0)
  refine ⟨fun hneg => absurd hneg (lt_irrefl 0), fun _ => ?_⟩
  rw [wp_bind, pdDeepCopy] at hcopy
  rw [wp_bind, Store.pdDeepCopy]
  -- the frame begins at a page below the end of memory
  obtain ⟨hpos, -, k, hk, hext⟩ := hr
  have hap : Apart s₁.extent := hfm.apart
  have hak : s₁.extent a = some k := by rw [hext, Function.update_self]
  have hlt : a < 2 ^ 32 := by
    have hle := hap.le hak
    have hmul : pageSize * 1 ≤ pageSize * k := Nat.mul_le_mul_left _ (by omega)
    have hpage := FrameManager.pageSize_pos
    omega
  have hsp : SameSpace t.vm s₂ := (SameSpace.of_fm hsame).trans hsp₂
  have htables : Tables s₂.dirs s₂.live := (hsp.settled hs hg₂).tables
  have hstart := @nthPage_start s₂ a src hlt
  rw [← hstart] at hcopy
  have hlift := deepCopyFrom_lift htables (hap.aligned hak) hne (numEntries - numKernelPde) garbage
    (t := ⟨s₂, t.bytes⟩) (le_refl _) hg₂ (fun _ _ => rfl) (fun _ hb => ⟨hb, rfl⟩) hcopy
  rw [hstart] at hlift
  refine wp_imp hlift fun r t' hpost => ?_
  obtain ⟨hQ, hbytes⟩ := hpost
  rw [wp_ite] at hQ ⊢
  constructor
  · intro hneg
    have hundo := hQ.1 hneg
    rw [wp_bind] at hundo ⊢
    rw [wp_liftVm]
    exact wp_imp hundo fun _ _ hQ => ⟨hQ, fun hzero => absurd hzero (by decide)⟩
  · intro hpos
    refine ⟨hQ.2 hpos, fun _ => ⟨a, _, Prod.ext hfst rfl, ?_⟩⟩
    rw [hbytes, forkMoves, moves_congr hsp.userMap]
    rfl

/-! ### When the contents are copied -/

/-- A fork copied the address space of `src` to `dest`. -/
structure ForkCopies (dest src : ℕ) (t t' : Store) : Prop where
  present : ∀ {w}, UserPage w → (t'.vm.pageEntry dest w ≠ none ↔ t.vm.pageEntry src w ≠ none)
  flags : ∀ {w v u}, UserPage w → t.vm.pageEntry src w = some v →
    t'.vm.pageEntry dest w = some u → extractFlags u = extractFlags v
  slots : ∀ {j}, numKernelPde ≤ j → j < numEntries →
    entryPresent (t'.vm.dirs dest j) = entryPresent (t.vm.dirs src j) ∧
    (entryPresent (t.vm.dirs src j) = true →
      extractFlags (t'.vm.dirs dest j) = extractFlags (t.vm.dirs src j))
  contents : ∀ {w p q}, t.vm.userMap src w = some p → t'.vm.userMap dest w = some q →
    t'.bytes q = t'.bytes p
  distinct : ∀ {w v q}, t'.vm.userMap dest w = some q → t'.vm.userMap dest v = some q → w = v
  frame : ∃ a, t.vm.extent a = none ∧ t'.vm.extent a ≠ none ∧
    ⟨a, t.vm.counts src⟩ ∈ t'.vm.lists dest ∧
    ∀ {w q}, t'.vm.userMap dest w = some q → Within a (t.vm.counts src) q
  source : t'.vm.dirs src = t.vm.dirs src
  tables : ∀ {j}, j < numEntries → entryPresent (t.vm.dirs src j) = true →
    t'.vm.pt (removeFlags (t.vm.dirs src j)) = t.vm.pt (removeFlags (t.vm.dirs src j))
  kept : ∀ {w p}, t.vm.userMap src w = some p → t'.bytes p = t.bytes p

/-- If a page of the process is the `i`-th page of the frame that the frame manager would
hand out for it, it holds what the `i`-th page of the process holds. -/
def Undisturbed (src : ℕ) (t : Store) : Prop :=
  ∀ a fm', fmAlloc (t.vm.counts src) t.vm.fm = (.ok (.ok a), fm') → ∀ w v p q,
    t.vm.userMap src w = some p → t.vm.userMap src v = some q →
    q = nthPage a (rank t.vm src w) → t.bytes q = t.bytes p

/-- The physical pages of the copy. -/
lemma Forked.userMap (h : Forked lim dest src a s s') {w q : ℕ} :
    s'.userMap dest w = some q ↔
      (∃ p, s.userMap src w = some p) ∧ q = nthPage a (rank s src w) := by
  constructor
  · intro hq
    obtain ⟨hu, u, hread, rfl⟩ := userMap_eq_some.mp hq
    rw [h.copy hu, Option.map_eq_some_iff] at hread
    obtain ⟨v, hv, rfl⟩ := hread
    exact ⟨⟨_, userMap_eq_some.mpr ⟨hu, v, hv, rfl⟩⟩,
      removeFlags_addFlags (nthPage_mod h.aligned _) (extractFlags_lt _)⟩
  · rintro ⟨⟨p, hp⟩, rfl⟩
    obtain ⟨hu, v, hv, -⟩ := userMap_eq_some.mp hp
    refine userMap_eq_some.mpr ⟨hu, _, by rw [h.copy hu, hv]; rfl, ?_⟩
    exact removeFlags_addFlags (nthPage_mod h.aligned _) (extractFlags_lt _)

/-- **What a fork copies**: everything but the contents always, and the contents if and
only if no page of the source is overwritten. -/
lemma Forked.copies_iff (h : Forked lim dest src a t.vm t'.vm) (hT : Tables t.vm.dirs t.vm.live)
    (hne : src ≠ dest) (hcount : mappedPages t.vm src ≤ t.vm.counts src)
    (hbytes : t'.bytes = copyBlocks t.bytes (forkMoves t.vm src a)) :
    ForkCopies dest src t t' ↔ Harmonious (forkMoves t.vm src a) t.bytes := by
  have hslot : ∀ {j}, numKernelPde ≤ j → j < numEntries →
      entryPresent (t'.vm.dirs dest j) = entryPresent (t.vm.dirs src j) := by
    intro j h4 hj
    rw [← entryPresent_extractFlags, h.slots h4 hj]
    split_ifs with hpre
    · rw [entryPresent_extractFlags]
    · rw [(Bool.not_eq_true _).mp hpre]
      rfl
  have hpage : ∀ {w p}, t.vm.userMap src w = some p →
      nthPage a (rank t.vm src w) = a + pageSize * rank t.vm src w := fun hp =>
    nthPage_eq h.le ((rank_lt hp).trans_le hcount)
  rw [← copyBlocks_faithful_iff (forkMoves_nodup h.le hcount), ← hbytes]
  constructor
  · rintro hcopies x hx
    obtain ⟨w, p, hp, rfl⟩ := mem_forkMoves.mp hx
    have hq := h.userMap.mpr ⟨⟨p, hp⟩, rfl⟩
    exact ⟨(hcopies.contents hp hq).trans (hcopies.kept hp), hcopies.kept hp⟩
  · intro hfaithful
    have hmove : ∀ {w p}, t.vm.userMap src w = some p →
        t'.bytes (nthPage a (rank t.vm src w)) = t.bytes p ∧ t'.bytes p = t.bytes p := fun hp =>
      hfaithful _ (mem_forkMoves.mpr ⟨_, _, hp, rfl⟩)
    refine ⟨fun hu => ?_, fun hu hv hread => ?_, fun h4 hj => ⟨hslot h4 hj, fun hpre => ?_⟩,
      fun hp hq => ?_, fun hw hv => ?_, ?_, h.dirs hne, fun hj hpre => ?_, fun hp => (hmove hp).2⟩
    · rw [h.copy hu, ne_eq, Option.map_eq_none_iff]
    · rw [h.copy hu, hv, Option.map_some, Option.some.injEq] at hread
      rw [← hread, copiedPte, extractFlags_addFlags (nthPage_mod h.aligned _) (extractFlags_lt _)]
    · rw [h.slots h4 hj, if_pos hpre]
    · obtain ⟨-, rfl⟩ := h.userMap.mp hq
      rw [(hmove hp).1, (hmove hp).2]
    · obtain ⟨⟨p, hp⟩, heq⟩ := h.userMap.mp hw
      obtain ⟨⟨p', hp'⟩, heq'⟩ := h.userMap.mp hv
      refine rank_inj hp hp' (Nat.eq_of_mul_eq_mul_left FrameManager.pageSize_pos ?_)
      rw [hpage hp] at heq
      rw [hpage hp'] at heq'
      omega
    · obtain ⟨k, -, hext⟩ := h.extent
      refine ⟨a, h.vacant, by rw [hext, Function.update_self]; simp, ?_, fun hq => ?_⟩
      · rw [h.lists, Function.update_self]
        exact .head _
      · obtain ⟨⟨p, hp⟩, rfl⟩ := h.userMap.mp hq
        rw [hpage hp]
        have hmul := Nat.mul_le_mul_left pageSize (Nat.succ_le_of_lt ((rank_lt hp).trans_le hcount))
        rw [Nat.mul_succ] at hmul
        exact ⟨Nat.le_add_right _ _, by omega⟩
    · exact h.tables (hT.live hj (ne_zero_of_present hpre))

/-- The pages of the source that are overwritten, in terms of the process. -/
lemma harmonious_iff : Harmonious (forkMoves s src a) t.bytes ↔ ∀ w v p q,
    s.userMap src w = some p → s.userMap src v = some q →
    q = nthPage a (rank s src w) → t.bytes q = t.bytes p := by
  constructor
  · intro h w v p q hp hq heq
    exact h _ (mem_forkMoves.mpr ⟨w, p, hp, rfl⟩) _ (mem_forkMoves.mpr ⟨v, q, hq, rfl⟩) heq
  · rintro h x hx y hy heq
    obtain ⟨w, p, hp, rfl⟩ := mem_forkMoves.mp hx
    obtain ⟨v, q, hq, rfl⟩ := mem_forkMoves.mp hy
    exact h w v p q hp hq heq

/-- **A fork copies the address space** if and only if no page of the process is
overwritten with other contents: in every state between operations in which the page
tables are apart, whatever the pages hold. -/
theorem forkCopies_iff (h : vmMachine.Reachable s) (htables : Tables s.dirs s.live)
    (hne : src ≠ dest) (hempty : Empty dest s) (hcount : mappedPages s src ≤ s.counts src)
    {heap : List (Option ℕ)} (hheap : ∀ r ∈ heap, r ≠ none) {bytes : ℕ → Bytes}
    (hfork : Store.vmmDeepCopy dest src garbage ⟨{ s with heap := heap }, bytes⟩ = (.ok 0, t')) :
    ForkCopies dest src ⟨{ s with heap := heap }, bytes⟩ t' ↔
      Undisturbed src ⟨{ s with heap := heap }, bytes⟩ := by
  obtain ⟨lim, hl⟩ := ledger_of_reachable h
  set t : Store := ⟨{ s with heap := heap }, bytes⟩ with ht
  have hledger : LedgerInv lim t.vm := hl.of_eq rfl rfl
  have hsettled : Settled t.vm := ⟨htables, hheap, fun e => idle_of_reachable h e⟩
  have hrun := vmmDeepCopy_lift (t := t) hledger hsettled hne
    (vmmDeepCopy_forked hledger hsettled dest src hempty garbage)
  obtain ⟨hforked, halloc⟩ := wp_ok hrun hfork
  obtain ⟨a, fm', ha, hbytes⟩ := halloc rfl
  obtain ⟨hneg, -⟩ | ⟨-, a', hf⟩ := hforked
  · exact absurd hneg (lt_irrefl 0)
  -- the frame manager hands out one frame
  obtain ⟨fm'', ha'⟩ := hf.alloc
  obtain rfl : a = a' := by
    rw [ha] at ha'
    simpa using congrArg Prod.fst ha'
  rw [hf.copies_iff htables hne hcount hbytes, harmonious_iff]
  constructor
  · intro hall b fm₁ hb
    obtain rfl : a = b := by
      rw [ha] at hb
      simpa using congrArg Prod.fst hb
    exact hall
  · exact fun hall => hall a fm' ha

/-- A process whose pages are in allocated frames is not disturbed. -/
theorem Isolated.undisturbed (h : Isolated t.vm) (hl : LedgerInv lim t.vm)
    (hcount : mappedPages t.vm src ≤ t.vm.counts src) : Undisturbed src t := by
  intro a fm' halloc w v p q hp hq heq
  obtain ⟨-, hnone, k, hk, hl'⟩ := wp_ok (FrameManager.fmAlloc_spec hl.fm _) halloc
  have hap : Apart fm'.view.extent := hl'.inv.apart
  have hak : fm'.view.extent a = some k := by rw [hl'.extent, Function.update_self]
  -- the page lies in a frame that is allocated already
  obtain ⟨m, -, l, hm, hlow, hhigh⟩ := h.inside hq
  have hne : m.pAddr ≠ a := by
    rintro rfl
    rw [Vm.extent, hnone] at hm
    simp at hm
  have hml : fm'.view.extent m.pAddr = some l := by
    rw [hl'.extent, Function.update_of_ne hne]
    exact hm
  -- and in the new one
  have hrank : rank t.vm src w < k := ((rank_lt hp).trans_le hcount).trans_le hk
  have hin := nthPage_eq (hap.le hak) hrank
  have hmul := Nat.mul_le_mul_left pageSize (Nat.succ_le_of_lt hrank)
  rw [Nat.mul_succ] at hmul
  have hpos := FrameManager.pageSize_pos
  rw [heq, hin] at hlow hhigh
  exact absurd (hap.disjoint hml hak hlow (by omega) (Nat.le_add_right _ _) (by omega)) hne

/-! ### Forks in careful runs -/

/-- The invariant of careful runs holds in all their states. -/
lemma guarded_of_careful (h : vmMachine.Reach (fun s a => a.Careful s) s) :
    ∃ lim, Guarded lim s :=
  Machine.Reach.inv (I := fun s => ∃ lim, Guarded lim s) (fun _ hs => VmInit.guarded hs)
    (fun _ _ _ ⟨lim, hg⟩ ha hstep => ⟨lim, hg.step ha hstep⟩) h

/-- A process that is isolated has no more pages mapped than it has on record. -/
lemma Guarded.mappedPages_le (h : Guarded lim s) (src : ℕ) : mappedPages s src ≤ s.counts src := by
  have hcount := h.secure.tenancy.count_le h.secure.toLedgerInv.balanced
    h.secure.toLedgerInv.fm.apart src (2 ^ 20)
  rw [h.secure.counts]
  exact hcount

/-- **A fork in a careful run copies the address space**, whatever the pages hold, when the heap
answers: and the run goes on with parent and child isolated from each other. -/
theorem forkCopies_of_careful (h : vmMachine.Reach (fun s a => a.Careful s) s) (hne : src ≠ dest)
    (hempty : Empty dest s) {heap : List (Option ℕ)} (hheap : ∀ r ∈ heap, r ≠ none)
    {bytes : ℕ → Bytes}
    (hfork : Store.vmmDeepCopy dest src garbage ⟨{ s with heap := heap }, bytes⟩ = (.ok 0, t')) :
    ForkCopies dest src ⟨{ s with heap := heap }, bytes⟩ t' ∧
      vmMachine.Reach (fun s a => a.Careful s) t'.vm ∧ Isolated t'.vm := by
  obtain ⟨lim, hg⟩ := guarded_of_careful h
  have hcount := hg.mappedPages_le src
  have hledger : LedgerInv lim ({ s with heap := heap } : Vm) :=
    hg.secure.toLedgerInv.of_eq rfl rfl
  have hsettled : Settled ({ s with heap := heap } : Vm) := ⟨hg.tables, hheap, hg.idle⟩
  obtain ⟨hrun, -⟩ := wp_ok (vmmDeepCopy_lift (t := ⟨{ s with heap := heap }, bytes⟩) hledger
    hsettled hne (wp_run _ _)) hfork
  have hstep : vmMachine.step s (.call (.deepCopy dest src garbage) heap) t'.vm := by
    change (VmOp.deepCopy dest src garbage).perform { s with heap := heap } = (.ok (), t'.vm)
    rw [VmOp.perform, run_bind hrun]
    rfl
  have hreach : vmMachine.Reach (fun s a => a.Careful s) t'.vm := by
    refine .step (a := .call (.deepCopy dest src garbage) heap) h ⟨hheap, fun op hp heq => ?_⟩ hstep
    cases heq
    trivial
  obtain ⟨lim', hg'⟩ := guarded_of_careful hreach
  have hisolated : Isolated ({ s with heap := heap } : Vm) := (hg.secure.of_heap heap).isolated
  refine ⟨?_, hreach, hg'.secure.isolated⟩
  exact (forkCopies_iff (h.mono fun _ _ _ => trivial) hg.tables hne hempty hcount hheap hfork).mpr
    (hisolated.undisturbed (t := ⟨{ s with heap := heap }, bytes⟩) hledger hcount)

/-- The answers of the heap for a fork of two pages. -/
def twoPagesHeap : List (Option ℕ) :=
  [some 0x9080, some 0x9090, some 0x6000, some 0x90a0, some 0x90b0]

/-- Pages that hold different bytes. -/
def numberedBytes (p : ℕ) (i : Fin pageSize) : UInt8 := UInt8.ofNat (p / pageSize + i)

/-- A process with two separate pages is forked, and its child reads what it has. -/
theorem forkCopies_of_careful_twoPages : ∃ s t',
    vmMachine.Reach (fun s a => a.Careful s) s ∧ Empty 1 s ∧
    Store.vmmDeepCopy 1 0 id ⟨{ s with heap := twoPagesHeap }, numberedBytes⟩ = (.ok 0, t') ∧
    ForkCopies 1 0 ⟨{ s with heap := twoPagesHeap }, numberedBytes⟩ t' ∧ Isolated t'.vm := by
  have hrun : ((Machine.replay vmStep (bootVm 3 8) (forkRun.take 2)).map fun s =>
      ((vmmDeepCopy 1 0 id { s with heap := twoPagesHeap }).1.toOption,
        decide (∀ j < numEntries, numKernelPde ≤ j → s.dirs 1 j = 0))) =
      some (some 0, true) := by decide +kernel
  rw [Option.map_eq_some_iff] at hrun
  obtain ⟨s, hs, hmap⟩ := hrun
  obtain ⟨hok, hdirs⟩ := Prod.mk.inj hmap
  have hempty : Empty 1 s := fun j h1 h2 => of_decide_eq_true hdirs j h2 h1
  have hreach : vmMachine.Reach (fun s a => a.Careful s) s := by
    refine Machine.reach_of_replay vmStep_sound _ ?_ (.init ?_) hs
    · intro a ha s
      fin_cases ha <;> simp [VmStep.Careful, VmStep.HeapSucceeds, VmOp.Careful, userMemStart]
    · exact bootVm_init (by decide) (by decide) (by decide) (by decide)
  obtain ⟨lim, hg⟩ := guarded_of_careful hreach
  obtain ⟨s₁, hvm⟩ := run_of_toOption hok
  have hheap : ∀ r ∈ twoPagesHeap, r ≠ none := by simp [twoPagesHeap]
  have hhalts : wp (vmmDeepCopy 1 0 id) (fun r _ => r = 0) (fun _ _ => False)
      { s with heap := twoPagesHeap } := by
    unfold wp
    rw [hvm]
  obtain ⟨r, t', hfork, rfl, -⟩ := wp_returns (vmmDeepCopy_lift
    (t := ⟨{ s with heap := twoPagesHeap }, numberedBytes⟩) (hg.secure.toLedgerInv.of_eq rfl rfl)
    ⟨hg.tables, hheap, hg.idle⟩ (by decide) hhalts)
  obtain ⟨hcopies, -, hisolated⟩ := forkCopies_of_careful hreach (by decide) hempty hheap hfork
  exact ⟨s, t', hreach, hempty, hfork, hcopies, hisolated⟩

end ShrekOS
