/-
What `vmm_new_user_page` and `vmm_remove_user_page` do to the page tables, exactly.

* `vmmRemoveUserPage_refused`: a base that is not the start of user pages is refused;
* `vmmRemoveUserPage_ends`: **a removal** unmaps the pages from a marked start to the
  first marked end and gives the frame back;
* `vmmNewUserPage_created`: **a request for new pages** changes nothing or maps them all
  to a frame of their own.

A removal uses two answers of the heap for each page; with so many it returns.
-/
import ShrekOS.Mem.Isolation
import ShrekOS.Mem.Staging

namespace ShrekOS

open Kit Kit.Cmd Vm

variable {lim d a n : ℕ} {s s' : Vm} {E : Fault → Vm → Prop}

/-! ### Marks -/

/-- The flags of an entry are those that were added. -/
lemma testBit_addFlags {p f j : ℕ} (hp : p % pageSize = 0) (hj : j < 12) :
    (addFlags p f).testBit j = f.testBit j := by
  have hzero : p.testBit j = false := by
    obtain ⟨c, rfl⟩ := Nat.dvd_of_mod_eq_zero hp
    have hpow : pageSize = 2 ^ 12 := rfl
    rw [hpow, Nat.testBit_two_pow_mul]
    simp [not_le.mpr hj]
  rw [addFlags, Nat.testBit_or, hzero, Bool.false_or]

lemma isUserStart_addFlags {p : ℕ} (hp : p % pageSize = 0) (f : ℕ) :
    isUserStart (addFlags p f) = f.testBit 9 := testBit_addFlags hp (by decide)

lemma isUserEnd_addFlags {p : ℕ} (hp : p % pageSize = 0) (f : ℕ) :
    isUserEnd (addFlags p f) = f.testBit 10 := testBit_addFlags hp (by decide)

lemma userFlags_present (i n : ℕ) : entryPresent (userFlags i n) = true := by
  rw [userFlags]
  split_ifs <;> decide

/-- The first page is marked as the start, and no other one. -/
lemma userFlags_start (i n : ℕ) : (userFlags i n).testBit 9 = decide (i = 0) := by
  rw [userFlags]
  by_cases h : i = 0
  · rw [if_pos h, decide_eq_true h]
    split_ifs <;> decide
  · rw [if_neg h, decide_eq_false h]
    split_ifs <;> decide

/-- The last page is marked as the end, and no other one. -/
lemma userFlags_end (i n : ℕ) : (userFlags i n).testBit 10 = decide (i = n - 1) := by
  rw [userFlags]
  by_cases h : i = n - 1
  · rw [if_pos h, decide_eq_true h]
    split_ifs <;> decide
  · rw [if_neg h, decide_eq_false h]
    split_ifs <;> decide

/-! ### Removing pages -/

/-- Writes of nothing, from the first one on. -/
lemma strip_zero_succ (first n : ℕ) : strip first (fun _ => 0) (n + 1) =
    (pageSize * first, 0) :: strip (first + 1) (fun _ => 0) n := by
  rw [strip, List.range_succ_eq_map, List.map_cons, List.map_map, strip, add_zero]
  congr 1
  refine List.map_congr_left fun i _ => ?_
  rw [Function.comp_apply, Nat.succ_eq_add_one, add_right_comm, add_assoc]

/-- The loop of `vmm_remove_user_page` adds a task for every page up to the end. -/
lemma removePages_ends {s₀ : Vm} {last : ℕ} (hlast : last < 2 ^ 20) :
    ∀ (fuel : ℕ) {v : UInt32} (prev : ℕ) {s : Vm}, Staged d s₀.pageEntry s →
    v.toNat % pageSize = 0 → userMemStart ≤ v.toNat → EndsAt s₀ d (v.toNat / pageSize) last →
    last < v.toNat / pageSize + fuel →
    wp (removePages d fuel v prev) (fun b s' => b = true ∧ Staged d s₀.pageEntry s' ∧
      s'.ledger = s.ledger ∧
      (s'.pds d).mappingTasks.map MappingTask.write =
      (s.pds d).mappingTasks.map MappingTask.write ++
        strip (v.toNat / pageSize) (fun _ => 0) (last + 1 - v.toNat / pageSize))
      (fun _ _ => s.heap.length < 2 * (last + 1 - v.toNat / pageSize)) s := by
  -- by induction on the fuel, which is more than the pages up to the end
  intro fuel
  induction fuel with
  | zero => exact fun _ _ _ _ _ hends hfuel => absurd hends.1 (by omega)
  | succ fuel ih =>
      intro v prev s h hv hlow ⟨hle, hentries⟩ hfuel
      have hlt := v.toNat_lt
      rw [removePages, wp_ite]
      -- the test for the top of memory does not hold of a user page
      refine ⟨fun hover => absurd hover ?_, fun _ => ?_⟩
      · rw [gt_iff_lt, UInt32.lt_iff_toNat_lt, UInt32.toNat_sub_of_le]
        · omega
        · rw [UInt32.le_iff_toNat_le]
          exact (show (4096 : ℕ) ≤ userMemStart by decide).trans hlow
      have hu : UserPage (v.toNat / pageSize) := by
        simp only [UserPage, userMemStart, pageSize, numEntries, numKernelPde] at *
        omega
      obtain ⟨u, hmapped, hend⟩ := hentries _ le_rfl hle
      have hread := h.page hu.page (e := d)
      rw [hmapped] at hread
      rw [wp_bind]
      refine pdGetMapping_read hlt (fun u' hu' => ?_) fun e hnone => ?_
      · obtain rfl := Option.some.inj (hread.symm.trans hu')
        dsimp only
        rw [wp_bind]
        -- the page is mapped, so it gets a task, which takes two answers of the heap
        refine wp_mono (pdRemoveMapping_staged h hlt hv hu (by simp [hmapped]))
          (fun c s₁ hpost => ?_) fun _ _ hfault => by omega
        obtain ⟨hc, h₁, hl₁, hheap₁, ht₁⟩ := hpost
        subst hc
        have hpage : v.toNat = pageSize * (v.toNat / pageSize) :=
          (Nat.mul_div_cancel' (Nat.dvd_of_mod_eq_zero hv)).symm
        have hwrite : (s₁.pds d).mappingTasks.map MappingTask.write =
            (s.pds d).mappingTasks.map MappingTask.write ++
              [(pageSize * (v.toNat / pageSize), 0)] := by
          rw [ht₁, List.map_append, ← hpage]
          rfl
        rw [wp_ite]
        refine ⟨fun hneg => absurd hneg (lt_irrefl 0), fun _ => ?_⟩
        rw [wp_ite]
        constructor
        · -- the page marked as the end: the loop is left
          intro hisEnd
          refine ⟨rfl, h₁, hl₁, ?_⟩
          have hone : last + 1 - v.toNat / pageSize = 0 + 1 := by
            have := hend.mp hisEnd
            omega
          rw [hone, strip_zero_succ, hwrite]
          rfl
        · intro hnotEnd
          have hne : v.toNat / pageSize ≠ last := fun heq => hnotEnd (hend.mpr heq)
          have hnext : (v + 4096).toNat = (v.toNat + 4096) % 2 ^ 32 := UInt32.toNat_add v 4096
          -- a later page is mapped, so the next address does not wrap around
          have hnext' : (v + 4096).toNat = v.toNat + 4096 := by
            simp only [pageSize] at *
            omega
          have hpage' : (v + 4096).toNat / pageSize = v.toNat / pageSize + 1 := by
            simp only [pageSize] at *
            omega
          have hrest := ih (v := v + 4096) u h₁ (by simp only [pageSize] at *; omega) (by omega)
            ⟨by omega, fun w h1 h2 => hentries w (by omega) h2⟩ (by omega)
          rw [hpage'] at hrest
          refine wp_mono hrest (fun b s₂ hpost => ?_) fun _ _ hfault => ?_
          · obtain ⟨hb, h₂, hl₂, ht₂⟩ := hpost
            refine ⟨hb, h₂, hl₂.trans hl₁, ?_⟩
            have hmore : last + 1 - v.toNat / pageSize =
                (last + 1 - (v.toNat / pageSize + 1)) + 1 := by omega
            rw [hmore, strip_zero_succ, ht₂, hwrite, List.append_assoc]
            rfl
          · rw [hheap₁, List.length_drop] at hfault
            omega
      · simp [hread] at hnone

/-- The pages `first` to `last` of `d` were unmapped, the frame at `a` was given back,
and nothing else changed. -/
structure Unmapped (d first last a : ℕ) (s s' : Vm) : Prop where
  pages : ∀ {e w}, Page w → s'.pageEntry e w =
    if e = d ∧ first ≤ w ∧ w ≤ last then none else s.pageEntry e w
  extent : s'.extent = Function.update s.extent a none
  lists : s'.lists = Function.update s.lists d ((s.lists d).eraseP fun m => m.pAddr = a)

/-- **A removal at a marked start**, up to the first marked end. -/
theorem vmmRemoveUserPage_ends (h : LedgerInv lim s) (hs : Settled s) {base : UInt32} {v last : ℕ}
    (hlow : userMemStart ≤ base.toNat) (hal : base.toNat % pageSize = 0)
    (hread : s.pageEntry d (base.toNat / pageSize) = some v) (hstart : isUserStart v = true)
    (hlast : last < 2 ^ 20) (hends : EndsAt s d (base.toNat / pageSize) last)
    (hrec : ∃ m ∈ s.lists d, m.pAddr = removeFlags v) :
    wp (vmmRemoveUserPage d base) (fun r s' => r = 0 ∧ LedgerInv lim s' ∧ Settled s' ∧
      Unmapped d (base.toNat / pageSize) last (removeFlags v) s s')
      (fun _ _ => s.heap.length < 2 * (last + 1 - base.toNat / pageSize)) s := by
  rw [vmmRemoveUserPage, wp_ite]
  -- the tests are passed: a whole page of user memory, and the start of a region
  refine ⟨fun hbase => absurd hbase ?_, fun _ => ?_⟩
  · simp only [isPageAligned, hal]
    simpa using hlow
  rw [wp_bind]
  refine pdGetMapping_read base.toNat_lt (fun v' hv' => ?_) fun e hnone => by simp [hread] at hnone
  obtain rfl := Option.some.inj (hread.symm.trans hv')
  dsimp only
  rw [wp_ite]
  refine ⟨fun hno => absurd hstart hno, fun _ => ?_⟩
  rw [wp_bind]
  -- the batch begins: nothing of the frame manager changes
  have hbegin : wp (pdBeginMapping d) (fun _ s' => s'.ledger = s.ledger)
      (fun _ _ => True) s := wp_mono (KeepsLedger.pdBeginMapping d s) (fun _ _ hl => hl)
    fun _ _ _ => trivial
  refine wp_mono (wp_both (pdBeginMapping_staged (E := fun _ _ => False) hs d) hbegin)
    (fun _ s₁ hpost => ?_) fun _ _ he => he.1.elim
  obtain ⟨⟨_, hf₁, ht₁, hheap₁⟩, hl₁⟩ := hpost
  rw [wp_bind, ← hheap₁]
  -- the loop finds the end of the region and queues its pages
  refine wp_imp (removePages_ends hlast (2 ^ 20 + 1) 0 hf₁ hal hlow hends
    (Nat.lt_add_left _ (by omega)))
    fun b s₂ hpost => ?_
  obtain ⟨hb, hf₂, hl₂, ht₂⟩ := hpost
  subst hb
  rw [wp_ite]
  refine ⟨fun hno => absurd hno (by simp), fun _ => ?_⟩
  have hledger : s₂.ledger = s.ledger := hl₂.trans hl₁
  have hlists : s₂.lists = s.lists := congrArg (fun l => l.2.1) hledger
  have hfm : s₂.fm = s.fm := congrArg Prod.fst hledger
  have hinv : LedgerInv lim s₂ := h.of_eq hfm hlists
  rw [wp_bind]
  -- the record of the frame goes, and the frame goes back
  refine wp_imp (forgetFrame_space hinv (hlists ▸ hrec)) fun r s₃ hpost => ?_
  obtain ⟨⟨size, hr⟩, hdealloc⟩ := hpost
  subst hr
  dsimp only
  rw [wp_bind]
  refine wp_imp hdealloc fun c s₄ hpost => ?_
  obtain ⟨hc, hinv₄, hsp, hheap, hext₄, hl₄, _⟩ := hpost
  subst hc
  rw [wp_ite]
  refine ⟨fun hneg => absurd hneg (lt_irrefl 0), fun _ => ?_⟩
  -- the queued pages are as the loop left them
  have hf₄ : Staged d s.pageEntry s₄ := by
    refine ⟨hsp.filling hf₂.toFilling fun r hr => hf₂.generous r (hheap ▸ hr), fun hw => ?_,
      fun t ht => ?_⟩
    · rw [hsp.pageEntry]
      exact hf₂.low hw
    · rw [Ready, hsp.dirs]
      exact hf₂.ready t (hsp.tasks d ▸ ht)
  rw [wp_bind]
  -- the commit writes the queued pages and nothing else
  have hkeep : wp (pdCommitMapping d) (fun _ s' => s'.ledger = s₄.ledger) (fun _ _ => True) s₄ :=
    wp_mono (KeepsLedger.pdCommitMapping d s₄) (fun _ _ hl => hl) fun _ _ _ => trivial
  refine wp_mono (wp_both (pdCommitMapping_staged (E := fun _ _ => False) hf₄) hkeep)
    (fun _ s₅ hpost => ?_) fun _ _ he => he.1.elim
  obtain ⟨⟨hs₅, _, hpages⟩, hl₅⟩ := hpost
  have hfm₅ : s₅.fm = s₄.fm := congrArg Prod.fst hl₅
  have hlists₅ : s₅.lists = s₄.lists := congrArg (fun l => l.2.1) hl₅
  refine ⟨rfl, hinv₄.of_eq hfm₅ hlists₅, hs₅, fun {e w} hw => ?_, ?_, ?_⟩
  -- a page is gone iff the loop queued it
  · rw [hpages hw, hsp.tasks, ht₂, ht₁]
    by_cases he : e = d
    · subst he
      rw [if_pos rfl, List.map_nil, List.nil_append, strip_foldl, present_zero]
      have hle := hends.1
      refine if_congr ?_ rfl rfl
      simp only [true_and]
      omega
    · rw [if_neg he, if_neg fun hcase => he hcase.1]
  · rw [Vm.extent, hfm₅, ← Vm.extent, hext₄, Vm.extent, hfm, ← Vm.extent]
  · rw [hlists₅, hl₄, hlists]

/-- **A base that is not the start of user pages is refused.** -/
theorem vmmRemoveUserPage_refused {base : UInt32}
    (hno : userMemStart ≤ base.toNat → base.toNat % pageSize = 0 → ∀ v,
      s.pageEntry d (base.toNat / pageSize) = some v → isUserStart v = false) :
    wp (vmmRemoveUserPage d base) (fun r s' => r < 0 ∧ s' = s) E s := by
  rw [vmmRemoveUserPage, wp_ite]
  refine ⟨fun _ => ⟨by simp, rfl⟩, fun hbase => ?_⟩
  rw [not_or, not_lt, not_not, isPageAligned, decide_eq_true_eq] at hbase
  rw [wp_bind]
  refine pdGetMapping_read base.toNat_lt (fun v hread => ?_) fun e _ => ⟨by simp, rfl⟩
  dsimp only
  rw [wp_ite]
  refine ⟨fun _ => ⟨by simp, rfl⟩, fun hstart => absurd ?_ hstart⟩
  simp [hno hbase.1 hbase.2 v hread]

/-! ### New pages -/

/-- The search for mapped pages only reads; when it finds none there are none. -/
lemma anyMapped_read (d : ℕ) : ∀ (k : ℕ) {v : UInt32}, v.toNat + pageSize * k ≤ 2 ^ 32 →
    wp (anyMapped d k v) (fun b s' => s' = s ∧
      (b = false ↔ ∀ i < k, s.pageEntry d (v.toNat / pageSize + i) = none)) E s := by
  intro k
  induction k with
  | zero => exact fun _ => ⟨rfl, fun _ i hi => absurd hi (Nat.not_lt_zero i), fun _ => rfl⟩
  | succ k ih =>
      intro v hv
      rw [anyMapped, wp_bind]
      refine pdGetMapping_read v.toNat_lt (fun u hu => ⟨rfl, ?_⟩) fun e hnone => ?_
      · refine iff_of_false Bool.noConfusion fun hall => ?_
        have hfirst := hall 0 (Nat.succ_pos k)
        rw [add_zero, hu] at hfirst
        exact absurd hfirst (Option.some_ne_none u)
      dsimp only
      rcases Nat.eq_zero_or_pos k with rfl | hk
      · refine ⟨rfl, fun _ i hi => ?_, fun _ => rfl⟩
        obtain rfl : i = 0 := by omega
        exact hnone
      · have hnext : (v + 4096).toNat = v.toNat + pageSize := by
          have h4096 : (v + 4096).toNat = (v.toNat + 4096) % 2 ^ 32 := UInt32.toNat_add v 4096
          simp only [pageSize] at *
          omega
        have hpage : (v + 4096).toNat / pageSize = v.toNat / pageSize + 1 := by
          rw [hnext, Nat.add_div_right _ FrameManager.pageSize_pos]
        refine wp_imp (ih (v := v + 4096) (by rw [hnext, mul_add, mul_one] at *; omega))
          fun b s₁ hpost => ⟨hpost.1, hpost.2.trans ⟨fun hrest i hi => ?_, fun hall i hi => ?_⟩⟩
        · rcases i with _ | j
          · exact hnone
          · have := hrest j (by omega)
            rwa [hpage, add_assoc, add_comm 1 j] at this
        · rw [hpage, add_assoc, add_comm 1 i]
          exact hall (i + 1) (by omega)

/-- The first check of `vmm_new_user_page`, on the number of pages. -/
lemma newPages_count (numPages : UInt32) : ¬ (numPages = 0 ∨ numPages > 0xFFFF) ↔
    0 < numPages.toNat ∧ numPages.toNat ≤ 0xFFFF := by
  have hbound : (0xFFFF : UInt32).toNat = 0xFFFF := rfl
  have hzero : numPages = 0 ↔ numPages.toNat = 0 := UInt32.toNat_inj.symm
  rw [not_or, gt_iff_lt, UInt32.lt_iff_toNat_lt, hbound, hzero]
  omega

/-- The second check of `vmm_new_user_page`, on the end of the range. -/
lemma newPages_range {base numPages : UInt32} (hpos : 0 < numPages.toNat)
    (hmax : numPages.toNat ≤ 0xFFFF) : ¬ base + numPages * 4096 - 1 < base ↔
      base.toNat + pageSize * numPages.toNat ≤ 2 ^ 32 := by
  have h4096 : (4096 : UInt32).toNat = 4096 := rfl
  have h1 : (1 : UInt32).toNat = 1 := rfl
  have hlt := base.toNat_lt
  rw [UInt32.lt_iff_toNat_lt, UInt32.toNat_sub, UInt32.toNat_add, UInt32.toNat_mul, h4096, h1]
  simp only [pageSize]
  omega

/-- The entry of page `i` of `n` new pages in the frame at `a`. -/
def userPte (a n i : ℕ) : ℕ := addFlags (a + pageSize * i) (userFlags i n)

lemma userPte_present (ha : a % pageSize = 0) (n i : ℕ) : entryPresent (userPte a n i) = true := by
  rw [userPte, entryPresent_addFlags (by rw [Nat.add_mul_mod_self_left, ha]), userFlags_present]

lemma userPte_start (ha : a % pageSize = 0) (n i : ℕ) :
    isUserStart (userPte a n i) = decide (i = 0) := by
  rw [userPte, isUserStart_addFlags (by rw [Nat.add_mul_mod_self_left, ha]), userFlags_start]

lemma userPte_end (ha : a % pageSize = 0) (n i : ℕ) :
    isUserEnd (userPte a n i) = decide (i = n - 1) := by
  rw [userPte, isUserEnd_addFlags (by rw [Nat.add_mul_mod_self_left, ha]), userFlags_end]

lemma removeFlags_userPte (ha : a % pageSize = 0) (n i : ℕ) :
    removeFlags (userPte a n i) = a + pageSize * i := by
  rw [userPte, removeFlags_addFlags (by rw [Nat.add_mul_mod_self_left, ha]) (userFlags_lt i n)]

/-- The loop of `vmm_new_user_page` adds a task for every page, in order. -/
lemma mapUserPages_staged {M : ℕ → ℕ → Option ℕ} {base : UInt32} (hv : base.toNat % pageSize = 0)
    (hlow : userMemStart ≤ base.toNat) (hhigh : base.toNat + pageSize * n ≤ 2 ^ 32)
    (ha : a % pageSize = 0) (hn : a + pageSize * n ≤ 2 ^ 32) :
    ∀ (k : ℕ) {s : Vm}, k ≤ n → Staged d M s → (s.pds d).mappingTasks.map MappingTask.write =
        strip (base.toNat / pageSize) (userPte a n) (n - k) →
      wp (mapUserPages d base a n k) (fun r s' => r = 0 ∧ Staged d M s' ∧
        (s'.pds d).mappingTasks.map MappingTask.write =
          strip (base.toNat / pageSize) (userPte a n) n) (fun e _ => Halts e) s := by
  intro k
  induction k with
  | zero => exact fun _ h ht => ⟨rfl, h, by rw [ht, Nat.sub_zero]⟩
  | succ k ih =>
      intro s hk h ht
      set i := n - (k + 1) with hidef
      have hi : i < n := by omega
      have hmul : pageSize * i + pageSize ≤ pageSize * n := by
        rw [← Nat.mul_succ]
        exact Nat.mul_le_mul_left _ hi
      have hpos := FrameManager.pageSize_pos
      have haddr : (base + UInt32.ofNat (pageSize * i)).toNat =
          pageSize * (base.toNat / pageSize + i) := by
        rw [toNat_add_page, Nat.mod_eq_of_lt (by omega), mul_add,
          Nat.mul_div_cancel' (Nat.dvd_of_mod_eq_zero hv)]
      have hpage : (a + pageSize * i) % 2 ^ 32 = a + pageSize * i := Nat.mod_eq_of_lt (by omega)
      have hu : UserPage (pageSize * (base.toNat / pageSize + i) / pageSize) := by
        rw [Nat.mul_div_cancel_left _ hpos]
        simp only [UserPage, userMemStart, pageSize, numEntries, numKernelPde] at *
        omega
      rw [mapUserPages, wp_bind, ← hidef, haddr, hpage]
      refine wp_imp (pdCreateMapping_staged h (by rw [← haddr]; exact UInt32.toNat_lt _)
        (Nat.mul_mod_right _ _) (by rw [Nat.add_mul_mod_self_left, ha]) (by decide) rfl hu)
        fun c s₁ hpost => ?_
      obtain ⟨hc, h₁, r, ht₁⟩ := hpost
      subst hc
      rw [wp_ite]
      refine ⟨fun hneg => absurd hneg (lt_irrefl 0), fun _ => ih (by omega) h₁ ?_⟩
      have hsucc : n - k = i + 1 := by omega
      rw [ht₁, List.map_append, ht, hsucc, strip_succ]
      rfl

/-- The `n` pages from `first` on of `d` were mapped to a frame of their own at `a`, and
no other entry changed. -/
structure Created (d first n a : ℕ) (s s' : Vm) : Prop where
  vacant : s.extent a = none
  aligned : a % pageSize = 0
  unmapped : ∀ i < n, s.pageEntry d (first + i) = none
  pages : ∀ {e w}, Page w → s'.pageEntry e w =
    if e = d ∧ first ≤ w ∧ w < first + n then some (userPte a n (w - first))
    else s.pageEntry e w
  lists : s'.lists = Function.update s.lists d (⟨a, n⟩ :: s.lists d)

/-- Nothing but the heap changed that an operation can see; a count of pages is a word. -/
structure Untouched (s s' : Vm) : Prop where
  pages : ∀ {e w}, Page w → s'.pageEntry e w = s.pageEntry e w
  extent : s'.extent = s.extent
  lists : s'.lists = s.lists
  counts : ∀ e, s.counts e < 2 ^ 32 → s'.counts e = s.counts e

lemma Untouched.refl (s : Vm) : Untouched s s := ⟨fun _ => rfl, rfl, rfl, fun _ _ => rfl⟩

/-- The `n` pages from `base` on can be made user pages of `d`. -/
structure CanMap (s : Vm) (d base n : ℕ) : Prop where
  aligned : base % pageSize = 0
  pos : 0 < n
  few : n ≤ 0xFFFF
  fits : base + pageSize * n ≤ 2 ^ 32
  unmapped : ∀ i < n, s.pageEntry d (base / pageSize + i) = none
  room : s.fm.HasRoom n

/-- `pd_abort_mapping` of a batch that got no page table. -/
lemma pdAbortMapping_staged {M : ℕ → ℕ → Option ℕ} (h : Staged d M s)
    (hres : ∀ t ∈ (s.pds d).mappingTasks, t.resource = none) :
    wp (pdAbortMapping d) (fun _ s' => Settled s' ∧
      ∀ {e w}, Page w → s'.pageEntry e w = M e w) E s := by
  rw [pdAbortMapping, wp_bind, wp_gets, wp_bind]
  refine wp_freeResources_none hres ?_
  rw [wp_bind, wp_gets, wp_setPd]
  refine ⟨settled_of_filling h.toFilling s.pt rfl rfl, fun hw => ?_⟩
  rw [← h.page hw]
  have hdirs : ({ s with
      pds := Function.update s.pds d
        { s.pds d with mappingTasks := [], batchEnabled := false, idle := fun _ => rfl } } :
      Vm).dirs = s.dirs := dirs_eq_of_update (s := s) rfl rfl
  rw [pageEntry_eq_of hdirs rfl]

/-- **A request for new pages**, where pages that are not mapped are pages of the user:
it is refused without any effect when the pages cannot be mapped, and otherwise they are
mapped to a frame of their own. -/
theorem vmmNewUserPage_created (h : LedgerInv lim s) (hs : Settled s) (d : ℕ)
    {base numPages : UInt32}
    (huser : (∀ i < numPages.toNat, s.pageEntry d (base.toNat / pageSize + i) = none) →
      0 < numPages.toNat → base.toNat % pageSize = 0 → userMemStart ≤ base.toNat) :
    wp (vmmNewUserPage d base numPages) (fun r s' => LedgerInv lim s' ∧ Settled s' ∧
      ((r < 0 ∧ ¬ CanMap s d base.toNat numPages.toNat ∧ Untouched s s') ∨
        (r = 0 ∧ CanMap s d base.toNat numPages.toNat ∧ userMemStart ≤ base.toNat ∧
          ∃ a, Created d (base.toNat / pageSize) numPages.toNat a s s')))
      (fun e _ => Halts e) s := by
  set n := numPages.toNat with hn
  -- a refusal before a frame is taken changes nothing
  have hrefused : ∀ {c : ℤ}, c < 0 → ¬ CanMap s d base.toNat n →
      LedgerInv lim s ∧ Settled s ∧ ((c < 0 ∧ ¬ CanMap s d base.toNat n ∧ Untouched s s) ∨
        (c = 0 ∧ CanMap s d base.toNat n ∧ userMemStart ≤ base.toNat ∧
          ∃ a, Created d (base.toNat / pageSize) n a s s)) :=
    fun hc hno => ⟨h, hs, .inl ⟨hc, hno, .refl s⟩⟩
  -- the count, the range and the pages that are mapped already are checked in turn
  rw [vmmNewUserPage, wp_ite]
  refine ⟨fun hnum => hrefused (by simp) fun hcan => ?_, fun hnum => ?_⟩
  · exact absurd hnum ((newPages_count numPages).mpr ⟨hcan.pos, hcan.few⟩)
  obtain ⟨hpos, hmax⟩ := (newPages_count numPages).mp hnum
  rw [wp_ite]
  refine ⟨fun hover => hrefused (by simp) fun hcan => ?_, fun hover => ?_⟩
  · exact absurd hover ((newPages_range hpos hmax).mpr hcan.fits)
  have hhigh := (newPages_range hpos hmax).mp hover
  rw [← hn] at hpos hmax hhigh ⊢
  rw [wp_bind]
  refine wp_imp (anyMapped_read d _ hhigh) fun b s₀ hpost => ?_
  obtain ⟨hs₀, hfree⟩ := hpost
  subst hs₀
  rw [wp_ite]
  refine ⟨fun hb => hrefused (by simp) fun hcan => ?_, fun hb => ?_⟩
  · rw [hfree.mpr hcan.unmapped] at hb
    exact absurd hb Bool.false_ne_true
  -- from here on a frame is taken and recorded
  have hunmapped := hfree.mp (by simpa using hb)
  refine withFrame_granted h hs d _ _ _
    (fun s₁ hl₁ hs₁ hsp hext hlists hcounts hnone => ⟨hl₁, hs₁, .inl ⟨by simp, fun hcan => ?_, ?_⟩⟩)
    fun a s₁ hg => ?_
  · exact hnone ((FrameManager.fmAlloc_ok_iff h.fm hpos).mpr hcan.room)
  · exact ⟨fun _ => by rw [hsp.pageEntry], hext, hlists, fun e _ => by rw [hcounts]⟩
  have hbegin : wp (pdBeginMapping d) (fun _ s' => s'.ledger = s₁.ledger)
      (fun _ _ => True) s₁ := wp_mono (KeepsLedger.pdBeginMapping d s₁) (fun _ _ hl => hl)
    fun _ _ _ => trivial
  rw [wp_bind]
  refine wp_mono (wp_both (pdBeginMapping_staged (E := fun _ _ => False) hg.settled d) hbegin)
    (fun r s₂ hpost => ?_) fun _ _ he => he.1.elim
  obtain ⟨⟨hr, hf₂, ht₂, _⟩, hl₂⟩ := hpost
  subst hr
  rw [wp_ite]
  refine ⟨fun hneg => absurd hneg (lt_irrefl 0), fun _ => ?_⟩
  rw [wp_bind]
  by_cases hv : base.toNat % pageSize = 0
  · -- every page gets a task, and then they are all written
    have hlow := huser hunmapped hpos hv
    refine wp_imp (wp_and (KeepsLedger.mapUserPages d base a _ _ s₂)
      (mapUserPages_staged hv hlow hhigh hg.aligned hg.le _ le_rfl hf₂ (by simp [ht₂, strip])))
      fun r s₃ hpost => ?_
    obtain ⟨hl₃, hr, hf₃, ht₃⟩ := hpost
    subst hr
    rw [wp_ite]
    refine ⟨fun hneg => absurd hneg (lt_irrefl 0), fun _ => ?_⟩
    rw [wp_bind]
    refine wp_imp (wp_and (KeepsLedger.pdCommitMapping d s₃) (pdCommitMapping_staged hf₃))
      fun _ s₄ hpost => ?_
    obtain ⟨hl₄, hs₄, _, hpages⟩ := hpost
    have hledger : s₄.ledger = s₁.ledger := hl₄.trans (hl₃.trans hl₂)
    have hfm : s₄.fm = s₁.fm := congrArg Prod.fst hledger
    have hlists : s₄.lists = s₁.lists := congrArg (fun l => l.2.1) hledger
    have hroom := (FrameManager.fmAlloc_ok_iff h.fm hpos).mp ⟨a, hg.alloc⟩
    refine ⟨hg.ledger.of_eq hfm hlists, hs₄, .inr ⟨rfl, ⟨hv, hpos, hmax, hhigh, hunmapped, hroom⟩,
      hlow, a, hg.vacant, hg.aligned, hunmapped, fun {e w} hw => ?_, hlists.trans hg.lists⟩⟩
    rw [hpages hw, ht₃, hg.space.pageEntry]
    by_cases he : e = d
    · subst he
      rw [if_pos rfl, strip_foldl, present_of (userPte_present hg.aligned _ _)]
      exact if_congr (by simp) rfl rfl
    · rw [if_neg he, if_neg fun hcase => he hcase.1]
  · -- the first page is refused: the frame goes back
    refine wp_imp (mapUserPages_unaligned hv hpos) fun r s₃ hpost => ?_
    obtain ⟨hr, hs₃⟩ := hpost
    subst hs₃
    rw [wp_ite]
    refine ⟨fun _ => ?_, fun hge => absurd hr hge⟩
    rw [wp_bind]
    refine wp_imp (wp_and (KeepsLedger.pdAbortMapping d s₃)
      (pdAbortMapping_staged hf₂ (by simp [ht₂]))) fun _ s₄ hpost => ?_
    obtain ⟨hl₄, hs₄, hpages⟩ := hpost
    have hledger : s₄.ledger = s₁.ledger := hl₄.trans hl₂
    have hfm : s₄.fm = s₁.fm := congrArg Prod.fst hledger
    have hlists : s₄.lists = s₁.lists := congrArg (fun l => l.2.1) hledger
    have hcounts : s₄.counts = s₁.counts := congrArg (fun l => l.2.2) hledger
    have hinv₄ : LedgerInv lim s₄ := hg.ledger.of_eq hfm hlists
    have hmem : ∃ m ∈ s₄.lists d, m.pAddr = a := by
      rw [hlists, hg.lists, Function.update_self]
      exact ⟨_, .head _, rfl⟩
    rw [wp_bind]
    refine wp_imp (forgetFrame_space hinv₄ hmem) fun _ s₅ hpost => ?_
    obtain ⟨_, hdealloc⟩ := hpost
    rw [wp_bind]
    refine wp_imp hdealloc fun _ s₆ hpost => ?_
    obtain ⟨_, hinv₆, hsp, hheap, hext₆, hl₆, m, hfind, hc₆⟩ := hpost
    have hg₆ : Generous s₆ := fun r hr => hs₄.generous r (hheap ▸ hr)
    refine ⟨hinv₆, hsp.settled hs₄ hg₆,
      .inl ⟨hr, fun hcan => hv hcan.aligned, fun {e w} hw => ?_, ?_, ?_, fun e hword => ?_⟩⟩
    · rw [hsp.pageEntry, hpages hw, hg.space.pageEntry]
    · obtain ⟨k, -, hext⟩ := hg.extent
      rw [hext₆, Vm.extent, hfm, ← Vm.extent, hext, Function.update_idem, ← hg.vacant,
        Function.update_eq_self]
    · rw [hl₆, hlists, hg.lists, Function.update_self, List.eraseP_cons_of_pos (by simp),
        Function.update_idem, Function.update_eq_self]
    · rw [hlists, hg.lists, Function.update_self, List.find?_cons_of_pos (by simp)] at hfind
      obtain rfl := Option.some.inj hfind
      rw [hc₆, hcounts, hg.counts, Function.update_idem]
      by_cases he : e = d
      · subst he
        rw [Function.update_self, Function.update_self]
        dsimp only
        omega
      · rw [Function.update_of_ne he]

end ShrekOS
