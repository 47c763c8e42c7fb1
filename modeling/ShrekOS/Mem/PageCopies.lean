/-
What the pages of user memory hold, and how `fork` copies them.

* `Store`: the virtual memory and the contents of the pages; `readPage`, `writePage`:
  accesses through the page tables of the current process;
* `Store.pCopy`, `Store.ptCopy`, `Store.deepCopyFrom`, `Store.vmmDeepCopy`: the
  functions of `page_directory.c` and `virtual_mem_mgmt.c` with the contents;
* `moves`: the pages that are copied, and where to, in order;
* `pCopy_spec`: the detour of `p_copy` through the page table entry of the source leaves
  the page table as it was;
* `ptCopy_lift`, `deepCopyFrom_lift`: **the page tables are those of the functions without
  contents**, and the contents are copied page by page.
-/
import ShrekOS.Lib.Blocks
import ShrekOS.Mem.Fork

namespace ShrekOS

open Kit Kit.Cmd Vm

/-- What a page holds. -/
abbrev Bytes : Type := Fin pageSize → UInt8

/-- The virtual memory, and what the pages of user memory hold, by physical address. The
page tables and the buffers of the kernel are not in user memory. -/
structure Store where
  vm : Vm
  bytes : ℕ → Bytes

/-- Commands on the virtual memory and the contents of its pages. -/
abbrev StoreM (α : Type) : Type := Cmd Fault Store α

/-- `get_page_address`. -/
def getPageAddress (pdI ptI : ℕ) : ℕ := pdI <<< 22 ||| ptI <<< 12

namespace Store

/-- A command of the virtual memory. -/
def liftVm {α : Type} (c : VmM α) : StoreM α := fun t =>
  ((c t.vm).1, { t with vm := (c t.vm).2 })

/-- The physical page that the processor finds at a virtual address: `cur` is the page
directory of the current process, and the TLB has nothing for the address. -/
def translate (cur vAddr : ℕ) : StoreM ℕ := do
  match ← liftVm (pdGetMapping cur vAddr) with
  | .ok v => pure (removeFlags v)
  | .error _ => fault (.panic "page fault")

/-- `memcpy` of the page at a virtual address to a buffer. -/
def readPage (cur vAddr : ℕ) : StoreM Bytes := do
  let p ← translate cur vAddr
  gets fun t => t.bytes p

/-- `memcpy` of a buffer to the page at a virtual address. -/
def writePage (cur vAddr : ℕ) (buffer : Bytes) : StoreM Unit := do
  let p ← translate cur vAddr
  modify fun t => { t with bytes := Function.update t.bytes p buffer }

/-- `p_copy`, for the page table entry `j` of `table`; each write of the entry is followed
by a flush of the TLB. -/
def pCopy (cur table j vAddr pAddr : ℕ) : StoreM ℤ := do
  if vAddr = 0 then pure (-1) else do
  if !(← liftVm malloc) then pure (-2) else do
  let originalPte ← liftVm (pte table j)
  let flags := extractFlags originalPte
  let buffer ← readPage cur vAddr
  liftVm (setPte table j (addFlags pAddr flags))
  writePage cur vAddr buffer
  liftVm (setPte table j originalPte)
  pure 0

/-- The loop of `pt_copy` over the last `k` entries, with the next physical page. -/
def ptCopy (cur dest src pdI : ℕ) : ℕ → ℕ → StoreM ℕ
  | 0, pAddr => pure pAddr
  | k + 1, pAddr => do
      let i := numEntries - (k + 1)
      let v ← liftVm (pte src i)
      if entryPresent v then do
        if (← pCopy cur src i (getPageAddress pdI i) pAddr) < 0 then
          pure ((pAddr + pageSize) % 2 ^ 32)
        else do
        liftVm (setPte dest i (addFlags pAddr (extractFlags v)))
        ptCopy cur dest src pdI k ((pAddr + pageSize) % 2 ^ 32)
      else ptCopy cur dest src pdI k pAddr

/-- The loop of `pd_deep_copy` over the last `k` entries; `src` is the current directory. -/
def deepCopyFrom (dest src : ℕ) : ℕ → ℕ → (ℕ → ℕ) → StoreM ℤ
  | 0, _, _ => pure 0
  | k + 1, pAddr, backup => do
      let i := numEntries - (k + 1)
      let pde ← liftVm (entry src i)
      if entryPresent pde then do
        match ← liftVm memalign with
        | none => do liftVm (rollBack dest i backup); pure (-2)
        | some newPt => do
            liftVm (clearTable newPt)
            let old ← liftVm (entry dest i)
            liftVm (setEntry dest i (newPt ||| extractFlags pde))
            let pAddr' ← ptCopy src newPt (removeFlags pde) i numEntries pAddr
            deepCopyFrom dest src k pAddr' (Function.update backup i old)
      else deepCopyFrom dest src k pAddr backup

/-- `pd_deep_copy`. -/
def pdDeepCopy (dest src pAddrStart : ℕ) (garbage : ℕ → ℕ) : StoreM ℤ :=
  deepCopyFrom dest src (numEntries - numKernelPde) pAddrStart garbage

/-- `vmm_deep_copy`, for a current process with page directory `src`. -/
def vmmDeepCopy (dest src : ℕ) (garbage : ℕ → ℕ) : StoreM ℤ := do
  let numPages ← liftVm (gets fun s => (s.pds src).numPages)
  match ← liftVm (liftFm (fmAlloc numPages)) with
  | .error _ => pure (-3)
  | .ok pAddrStart => do
      if (← liftVm (pdAllocFrame dest pAddrStart numPages)) < 0 then do
        let _ ← liftVm (liftFm (fmDealloc pAddrStart))
        pure (-4)
      else do
      if (← pdDeepCopy dest src pAddrStart garbage) < 0 then do
        liftVm (undoFrame dest pAddrStart)
        pure (-5)
      else pure 0

end Store

/-! ### One page -/

/-- The pages with numbers from `low` on that are copied, and where to. -/
def moves (s₀ : Vm) (src base low n : ℕ) : List (ℕ × ℕ) :=
  (List.range' low n).filterMap fun w =>
    (s₀.userMap src w).map fun p => (p, nthPage base (rank s₀ src w))

variable {s₀ : Vm} {t : Store} {dest src new old base i : ℕ} {E : Fault → Store → Prop}

@[simp] lemma wp_liftVm {α : Type} {Q : α → Store → Prop} (c : VmM α) :
    wp (Store.liftVm c) Q E t ↔ wp c (fun a s' => Q a { t with vm := s' })
      (fun e s' => E e { t with vm := s' }) t.vm := by
  unfold wp Store.liftVm
  rcases c t.vm with ⟨_ | _, _⟩ <;> rfl

/-- The address of a page from its two indices. -/
lemma getPageAddress_eq {j : ℕ} (hj : j < numEntries) :
    getPageAddress i j = pageSize * (numEntries * i + j) := by
  have hlt : 2 ^ 12 * j < 2 ^ 22 := by
    simp only [numEntries] at hj
    omega
  rw [getPageAddress, Nat.shiftLeft_eq, Nat.shiftLeft_eq, mul_comm i, mul_comm j,
    ← Nat.two_pow_add_eq_or_of_lt hlt]
  simp only [pageSize, numEntries]
  omega

lemma getPageAddress_div {j : ℕ} (hj : j < numEntries) :
    getPageAddress i j / pageSize = numEntries * i + j := by
  rw [getPageAddress_eq hj, Nat.mul_div_cancel_left _ FrameManager.pageSize_pos]

lemma getPageAddress_lt {j : ℕ} (hi : i < numEntries) (hj : j < numEntries) :
    getPageAddress i j < 2 ^ 32 := by
  rw [getPageAddress_eq hj]
  simp only [pageSize, numEntries] at *
  omega

/-- The processor finds the page of a present entry. -/
lemma translate_of_present {cur vAddr v : ℕ} {Q : ℕ → Store → Prop} (hlt : vAddr < 2 ^ 32)
    (h : t.vm.pageEntry cur (vAddr / pageSize) = some v) (hQ : Q (removeFlags v) t) :
    wp (Store.translate cur vAddr) Q E t := by
  rw [Store.translate, wp_bind, wp_liftVm]
  refine pdGetMapping_read hlt (fun u hu => ?_) fun e hnone => ?_
  · obtain rfl := Option.some.inj (hu.symm.trans h)
    exact hQ
  · rw [h] at hnone
    simp at hnone

/-- A `malloc` that succeeds. -/
lemma malloc_spec {s : Vm} (hg : Generous s) : wp malloc (fun b s' => b = true ∧ Generous s' ∧
    ∃ rs, s' = { s with heap := rs }) (fun _ _ => True) s :=
  wp_mono (malloc_generous hg (Q := fun b s' => b = true ∧ Generous s' ∧
    ∃ rs, s' = { s with heap := rs }) fun rs hrs => ⟨rfl, hrs, rs, rfl⟩) (fun _ _ hq => hq)
    fun _ _ _ => trivial

/-- **`p_copy`** of a present page: the page table is as before, and the contents of the
page are at the new address. -/
lemma pCopy_spec {Q : ℤ → Store → Prop} {j pAddr : ℕ} (h4 : numKernelPde ≤ i)
    (hi : i < numEntries) (hj : j < numEntries) (hpde : entryPresent (t.vm.dirs src i) = true)
    (hold : removeFlags (t.vm.dirs src i) = old) (hpte : entryPresent (t.vm.pt old j) = true)
    (hal : pAddr % pageSize = 0)
    (hQ : wp malloc (fun b s' => (b = true ∧ ∃ rs, s' = { t.vm with heap := rs }) ∧
        Q 0 ⟨s', copyBlock t.bytes (removeFlags (t.vm.pt old j), pAddr)⟩)
      (fun e s' => E e { t with vm := s' }) t.vm) :
    wp (Store.pCopy src old j (getPageAddress i j) pAddr) Q E t := by
  have hlt : getPageAddress i j < 2 ^ 32 := getPageAddress_lt hi hj
  have hne : getPageAddress i j ≠ 0 := by
    rw [getPageAddress_eq hj]
    simp only [pageSize, numEntries, numKernelPde] at *
    omega
  rw [Store.pCopy, wp_ite]
  refine ⟨fun hzero => absurd hzero hne, fun _ => ?_⟩
  rw [wp_bind, wp_liftVm]
  refine wp_imp hQ fun b s₁ hpost => ?_
  obtain ⟨⟨hb, rs, hs₁⟩, hQ⟩ := hpost
  subst hb hs₁
  rw [wp_ite]
  refine ⟨fun hc => absurd hc (by simp), fun _ => ?_⟩
  rw [wp_bind, wp_liftVm, wp_pte, wp_bind, Store.readPage, wp_bind]
  refine translate_of_present hlt (v := t.vm.pt old j) ?_ ?_
  · rw [getPageAddress_div hj]
    refine pageEntry_eq_some.mpr ⟨?_, hpte, ?_⟩
    · rw [slot_div hj]
      exact hpde
    · rw [slot_div hj, slot_mod hj, ← hold]
      rfl
  rw [wp_gets, wp_bind, wp_liftVm, wp_setPte, wp_bind, Store.writePage, wp_bind]
  -- while the entry leads to the new page, the address does so too
  refine translate_of_present hlt (v := addFlags pAddr (extractFlags (t.vm.pt old j))) ?_ ?_
  · rw [getPageAddress_div hj]
    refine pageEntry_eq_some.mpr ⟨?_, ?_, ?_⟩
    · rw [slot_div hj]
      exact hpde
    · rw [entryPresent_addFlags hal, entryPresent_extractFlags, hpte]
    · rw [slot_div hj, slot_mod hj]
      change Function.update t.vm.pt old _ (removeFlags (t.vm.dirs src i)) j = _
      rw [hold, Function.update_self, Function.update_self]
  rw [wp_modify, wp_bind, wp_liftVm, wp_setPte, wp_pure,
    removeFlags_addFlags hal (extractFlags_lt _)]
  simpa [copyBlock, Function.update_idem, Function.update_eq_self] using hQ

/-! ### All pages -/

lemma moves_append (s₀ : Vm) (src base low m n : ℕ) : moves s₀ src base low (m + n) =
    moves s₀ src base low m ++ moves s₀ src base (low + m) n := by
  rw [moves, moves, moves, ← List.filterMap_append, List.range'_append_1]

/-- The copies are about the user pages alone. -/
lemma moves_congr {s s' : Vm} (h : s'.userMap = s.userMap) (src base low n : ℕ) :
    moves s' src base low n = moves s src base low n := by
  rw [moves, moves]
  exact List.filterMap_congr fun w _ => by rw [h, rank_congr h]

lemma moves_of_mapped {low p n : ℕ} (h : s₀.userMap src low = some p) :
    moves s₀ src base low (n + 1) =
      (p, nthPage base (rank s₀ src low)) :: moves s₀ src base (low + 1) n := by
  simp [moves, List.range'_succ, h]

lemma moves_of_unmapped {low n : ℕ} (h : s₀.userMap src low = none) :
    moves s₀ src base low (n + 1) = moves s₀ src base (low + 1) n := by
  simp [moves, List.range'_succ, h]

/-- A slot that is not present has no pages to copy. -/
lemma moves_absent (h4 : numKernelPde ≤ i) (hi : i < numEntries)
    (hpre : ¬ entryPresent (s₀.dirs src i) = true) :
    moves s₀ src base (numEntries * i) numEntries = [] := by
  rw [moves, List.filterMap_eq_nil_iff]
  intro w hw
  obtain ⟨hle, hlt⟩ := List.mem_range'_1.mp hw
  have hmapped := (@mapped_slot s₀ src i (w - numEntries * i) h4 hi
    (by omega)).not.mpr fun h => hpre h.1
  rw [Nat.add_sub_cancel' hle, Mapped, Option.not_isSome_iff_eq_none] at hmapped
  rw [hmapped]
  rfl

/-- What a mapped page of a slot maps to. -/
lemma userMap_slot {j : ℕ} (h4 : numKernelPde ≤ i) (hi : i < numEntries) (hj : j < numEntries)
    (hpde : entryPresent (s₀.dirs src i) = true)
    (hpte : entryPresent (s₀.pt (removeFlags (s₀.dirs src i)) j) = true) :
    s₀.userMap src (numEntries * i + j) =
      some (removeFlags (s₀.pt (removeFlags (s₀.dirs src i)) j)) := by
  refine userMap_eq_some.mpr ⟨by rw [UserPage, slot_div hj]; exact ⟨h4, hi⟩, _,
    pageEntry_eq_some.mpr ⟨?_, hpte, ?_⟩, rfl⟩
  · rw [slot_div hj]
    exact hpde
  · rw [slot_div hj, slot_mod hj]

/-- **`pt_copy`** does with the page tables what it does without contents, and copies the
pages of the slot. -/
lemma ptCopy_lift (h4 : numKernelPde ≤ i) (hi : i < numEntries) (hbase : base % pageSize = 0)
    (hne : new ≠ removeFlags (s₀.dirs src i)) (hpde : entryPresent (s₀.dirs src i) = true) :
    ∀ (k : ℕ) {t : Store} {Q : ℕ → Vm → Prop} {E : Fault → Vm → Prop}, k ≤ numEntries →
    Generous t.vm → t.vm.dirs src i = s₀.dirs src i →
    t.vm.pt (removeFlags (s₀.dirs src i)) = s₀.pt (removeFlags (s₀.dirs src i)) →
    wp (ptCopy new (removeFlags (s₀.dirs src i)) k
      (nthPage base (rank s₀ src (numEntries * i + (numEntries - k))))) Q E t.vm →
    wp (Store.ptCopy src new (removeFlags (s₀.dirs src i)) i k
      (nthPage base (rank s₀ src (numEntries * i + (numEntries - k)))))
      (fun r t' => Q r t'.vm ∧ t'.bytes = copyBlocks t.bytes
        (moves s₀ src base (numEntries * i + (numEntries - k)) k)) (fun e t' => E e t'.vm) t := by
  -- by induction on the entries left, in step with the copy without contents
  intro k
  set old := removeFlags (s₀.dirs src i) with holddef
  induction k with
  | zero => exact fun _ _ _ _ h => ⟨h, rfl⟩
  | succ k ih =>
      intro t Q E hk hg hdir hpt h
      set j := numEntries - (k + 1) with hjdef
      have hj : j < numEntries := by omega
      have hsucc : numEntries - k = j + 1 := by omega
      rw [ptCopy, wp_bind, wp_pte, wp_ite, ← hjdef, hpt] at h
      rw [Store.ptCopy, wp_bind, wp_liftVm, wp_pte, wp_ite, ← hjdef]
      rw [hpt]
      constructor
      · -- a present page is copied to the next page of the frame
        intro hpre
        have hmap : s₀.userMap src (numEntries * i + j) = some (removeFlags (s₀.pt old j)) :=
          userMap_slot h4 hi hj hpde hpre
        have hrank : rank s₀ src (numEntries * i + (numEntries - k)) =
            rank s₀ src (numEntries * i + j) + 1 := by
          have hmapped : Mapped s₀ src (numEntries * i + j) := by simp [Mapped, hmap]
          rw [hsucc, ← add_assoc, rank, Nat.count_succ, if_pos hmapped, rank]
        have hcopy := h.1 hpre
        rw [wp_bind] at hcopy
        rw [wp_bind]
        -- the contents are copied through the entry of the source
        refine pCopy_spec h4 hi hj (by rw [hdir]; exact hpde) (by rw [hdir])
          (by rw [hpt]; exact hpre)
          (nthPage_mod hbase _) ?_
        refine wp_mono (wp_both (malloc_spec hg) hcopy) (fun b s₁ hpost => ?_)
          fun _ _ he => he.2
        obtain ⟨⟨hb, hg₁, rs, hs₁⟩, hcopy⟩ := hpost
        refine ⟨⟨hb, rs, hs₁⟩, ?_⟩
        subst hb hs₁
        rw [wp_ite] at hcopy ⊢
        have hcopy := hcopy.2 (by simp)
        refine ⟨fun hneg => absurd hneg (lt_irrefl 0), fun _ => ?_⟩
        rw [wp_bind, wp_setPte, nthPage_succ, ← hrank] at hcopy
        rw [wp_bind, wp_liftVm, wp_setPte, nthPage_succ, ← hrank, hpt]
        refine wp_imp (ih (by omega) hg₁ hdir ?_ hcopy) fun r t' hpost => ⟨hpost.1, ?_⟩
        · change Function.update t.vm.pt new _ old = _
          rw [Function.update_of_ne (Ne.symm hne), hpt]
        · rw [hpost.2, moves_of_mapped hmap, hsucc, ← add_assoc]
          rfl
      -- nothing is copied for an absent entry
      · intro hpre
        have hmapped : ¬ Mapped s₀ src (numEntries * i + j) := fun hm =>
          hpre ((mapped_slot h4 hi hj).mp hm).2
        have hrank : rank s₀ src (numEntries * i + (numEntries - k)) =
            rank s₀ src (numEntries * i + j) := by
          rw [hsucc, ← add_assoc, rank, Nat.count_succ, if_neg hmapped, add_zero, rank]
        rw [Mapped, Option.not_isSome_iff_eq_none] at hmapped
        rw [← hrank, moves_of_unmapped hmapped, add_assoc, ← hsucc]
        have hskip := h.2 hpre
        rw [← hrank] at hskip
        exact ih (by omega) hg hdir hpt hskip

/-- A `memalign` that succeeds gives a table that was not in use. -/
lemma memalign_spec {s : Vm} (hg : Generous s) : wp memalign (fun r s' => ∃ a rs, r = some a ∧
    s.live a = false ∧ Generous s' ∧
    s' = { s with heap := rs, live := Function.update s.live a true }) (fun _ _ => True) s :=
  wp_mono (memalign_generous hg (Q := fun r s' => ∃ a rs, r = some a ∧ s.live a = false ∧
    Generous s' ∧ s' = { s with heap := rs, live := Function.update s.live a true })
    fun a rs _ _ hfree hg' => ⟨a, rs, rfl, hfree, hg', rfl⟩) (fun _ _ hq => hq) fun _ _ _ => trivial

/-- **The loop of `pd_deep_copy`** does with the page tables what it does without contents,
and copies all pages of the slots. -/
lemma deepCopyFrom_lift (hT : Tables s₀.dirs s₀.live) (hbase : base % pageSize = 0)
    (hne : src ≠ dest) : ∀ (k : ℕ) (backup : ℕ → ℕ) {t : Store} {Q : ℤ → Vm → Prop}
    {E : Fault → Vm → Prop}, k ≤ numEntries - numKernelPde → Generous t.vm →
    (∀ j, numEntries - k ≤ j → t.vm.dirs src j = s₀.dirs src j) →
    (∀ a, s₀.live a = true → t.vm.live a = true ∧ t.vm.pt a = s₀.pt a) →
    wp (deepCopyFrom dest src k
      (nthPage base (rank s₀ src (numEntries * (numEntries - k)))) backup) Q E t.vm →
    wp (Store.deepCopyFrom dest src k
      (nthPage base (rank s₀ src (numEntries * (numEntries - k)))) backup)
      (fun r t' => Q r t'.vm ∧ t'.bytes = copyBlocks t.bytes
        (moves s₀ src base (numEntries * (numEntries - k)) (numEntries * k)))
      (fun e t' => E e t'.vm) t := by
  intro k
  induction k with
  | zero => exact fun _ _ _ _ _ _ _ _ h => ⟨h, rfl⟩
  | succ k ih =>
      intro backup t Q E hk hg hahead hkept h
      set i := numEntries - (k + 1) with hidef
      have h4 : numKernelPde ≤ i := by simp only [numEntries, numKernelPde] at *; omega
      have hi : i < numEntries := by simp only [numEntries] at *; omega
      have hsucc : numEntries - k = i + 1 := by omega
      have hentry : (t.vm.pds src).directory i = s₀.dirs src i := hahead i le_rfl
      have hmoves : moves s₀ src base (numEntries * i) (numEntries * (k + 1)) =
          moves s₀ src base (numEntries * i) numEntries ++
            moves s₀ src base (numEntries * (numEntries - k)) (numEntries * k) := by
        rw [mul_add, mul_one, add_comm (numEntries * k), moves_append, hsucc, mul_add, mul_one]
      rw [deepCopyFrom, wp_bind, wp_entry, ← hidef, hentry, wp_ite] at h
      rw [Store.deepCopyFrom, wp_bind, wp_liftVm, wp_entry, ← hidef, hentry, wp_ite]
      constructor
      · intro hpre
        have hrun := h.1 hpre
        rw [wp_bind] at hrun
        rw [wp_bind, wp_liftVm]
        refine wp_mono (wp_both (memalign_spec hg) hrun)
          (fun r s₁ hpost => ?_) fun _ _ he => he.2
        obtain ⟨⟨a, rs, hr, hfree, hg₁, hs₁⟩, hrun⟩ := hpost
        subst hr
        dsimp only at hrun ⊢
        rw [wp_bind, wp_clearTable, wp_bind, wp_entry, wp_bind, wp_setEntry, wp_bind] at hrun
        rw [wp_bind, wp_liftVm, wp_clearTable, wp_bind, wp_liftVm, wp_entry, wp_bind, wp_liftVm,
          wp_setEntry, wp_bind]
        -- the table of the source is in use, so it is not the new one
        have hsrc := hkept _ (hT.live hi (ne_zero_of_present hpre))
        have hane : a ≠ removeFlags (s₀.dirs src i) := by
          intro heq
          rw [← heq, hfree] at hsrc
          exact absurd hsrc.1 (by simp)
        set s₂ : Vm := { s₁ with
          pds := Function.update s₁.pds dest { s₁.pds dest with
            directory := Function.update (s₁.pds dest).directory i
              (a ||| extractFlags (s₀.dirs src i)) }
          pt := Function.update s₁.pt a fun _ => 0 } with hs₂
        have hdirs : ∀ j, s₂.dirs src j = t.vm.dirs src j := by
          intro j
          rw [dirs_of_update (s := s₁) rfl, if_neg hne, hs₁]
          rfl
        have hkept₂ : ∀ b, s₀.live b = true → s₂.live b = true ∧ s₂.pt b = s₀.pt b := by
          intro b hb
          obtain ⟨hlive, hpt⟩ := hkept b hb
          have hne' : b ≠ a := by
            rintro rfl
            rw [hfree] at hlive
            exact absurd hlive (by simp)
          rw [← hlive, ← hpt]
          simp [hs₂, hs₁, Function.update_of_ne hne']
        have hold := (hkept₂ _ (hT.live hi (ne_zero_of_present hpre))).2
        have hslot := wp_both (@ptCopy_slot s₂ a base s₀ src i h4 hi hpre hane hg₁ hold) hrun
        have hlift := @ptCopy_lift s₀ src a base i h4 hi hbase hane hpre numEntries
          ⟨s₂, t.bytes⟩ _ _ le_rfl hg₁ ((hdirs i).trans (hahead i le_rfl)) hold hslot
        refine wp_mono hlift (fun r t' hpost => ?_)
          fun _ _ he => he.2
        obtain ⟨⟨⟨hr, hg', ⟨heap, hs'⟩, _⟩, hrest⟩, hbytes⟩ := hpost
        rw [hr, ← hsucc] at hrest ⊢
        refine wp_imp (ih _ (by omega) hg' (fun j hj => ?_) (fun b hb => ?_) hrest)
          fun r' t'' hpost => ⟨hpost.1, ?_⟩
        · rw [← hahead j (by omega), ← hdirs j, hs']
          rfl
        · have hne' : b ≠ a := by
            rintro rfl
            exact absurd ((hkept _ hb).1.symm.trans hfree) (by simp)
          rw [← (hkept₂ b hb).1, ← (hkept₂ b hb).2, hs']
          exact ⟨rfl, Function.update_of_ne hne' _ _⟩
        · rw [hpost.2, hbytes, hmoves, copyBlocks_append]
          rfl
      · intro hpre
        have hskip := h.2 hpre
        rw [← rank_absent h4 hi hpre, ← hsucc] at hskip ⊢
        rw [hmoves, moves_absent h4 hi hpre, List.nil_append]
        exact ih backup (by omega) hg (fun j hj => hahead j (by omega)) hkept hskip

end ShrekOS
