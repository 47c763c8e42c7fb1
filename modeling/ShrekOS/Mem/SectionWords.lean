/-
What `vmm_map_sections` does to its own directory, wherever the sections lie.

* `InOrder`: the bounds of a load are in order, `inOrder_of_assigned`;
* `KernelApart`: the page tables of the kernel's slots are different ones;
* `mapPages_queued`: the loop adds a task for every page, and changes no page that is mapped;
* `LoadedAt`, `vmmMapSections_loadedAt`: **a load that succeeds** maps the pages between its
  bounds, for any bounds.

Pages below the user space are written to the page tables of the kernel, which all directories
share; this module is about the directory of the call only.
-/
import ShrekOS.Mem.BatchReplay
import ShrekOS.Mem.Sections

namespace ShrekOS

open Kit Kit.Cmd Kit.Deferred Vm

variable {lim d a n : ℕ} {s s' s₀ : Vm} {secs : List MemSection} {garbage : UInt32 × UInt32}

/-! ### The bounds -/

/-- The bounds are in order. If all sections are empty, they are what two local variables held
that were never assigned. -/
def InOrder (secs : List MemSection) (garbage : UInt32 × UInt32) : Prop :=
  (loadBounds secs garbage).1 ≤ (loadBounds secs garbage).2

instance (secs : List MemSection) (garbage : UInt32 × UInt32) : Decidable (InOrder secs garbage) :=
  inferInstanceAs (Decidable (_ ≤ _))

/-- Bounds that were assigned are in order. -/
lemma inOrder_of_assigned (h : msGetBoundingAddr secs ≠ none) : InOrder secs garbage := by
  obtain ⟨b, hb⟩ := Option.ne_none_iff_exists'.mp h
  rw [InOrder, loadBounds, hb, Option.getD_some]
  unfold msGetBoundingAddr at hb
  by_cases hgt : (boundingAddr secs 0xFFFFFFFF 0).1 > (boundingAddr secs 0xFFFFFFFF 0).2
  · exact absurd (hb.symm.trans (if_pos hgt)) (Option.some_ne_none b)
  · obtain rfl := Option.some.inj (hb.symm.trans (if_neg hgt))
    exact UInt32.not_lt.mp hgt

/-- The pages of a load lie in the address space. -/
lemma InOrder.le (h : InOrder secs garbage) :
    pageSize * (firstPage (loadBounds secs garbage).1 +
      pageCount (loadBounds secs garbage).1 (loadBounds secs garbage).2) ≤ 2 ^ 32 := by
  have hend := StaysAbove.pages_le h
  have hfirst : (pageAlignDown (loadBounds secs garbage).1).toNat =
      pageSize * firstPage (loadBounds secs garbage).1 := by
    rw [← firstPage_eq, Nat.mul_div_cancel' (Nat.dvd_of_mod_eq_zero (pageAlignDown_mod _))]
  rw [hfirst, ← mul_add] at hend
  exact hend

/-! ### Page tables that are apart -/

/-- The page tables of the kernel's slots are different ones. -/
def KernelApart (d : ℕ) (s : Vm) : Prop :=
  ∀ i < numKernelPde, ∀ j < numKernelPde, s.table d i = s.table d j → i = j

/-- As long as the kernel is mapped directly, its page tables are apart: the second page of each
slot is another one. -/
lemma KernelMapped.kernelApart (h : KernelMapped s) (d : ℕ) : KernelApart d s := by
  intro i hi j hj htab
  have hentry : ∀ k < numKernelPde, s.pt (s.table d k) 1 =
      addFlags (pageSize * (k * numEntries + 1)) kernelPteFlags := by
    intro k hk
    have hlt : k * numEntries + 1 < numKernelPte := by
      simp only [numKernelPte, numKernelPde, numEntries] at *
      omega
    have hread := (pageEntry_eq_some.mp (h.direct d _ (Nat.succ_pos _) hlt)).2.2
    have hdiv : (k * numEntries + 1) / numEntries = k := by
      simp only [numEntries]
      omega
    have hmod : (k * numEntries + 1) % numEntries = 1 := by
      simp only [numEntries]
      omega
    rw [hdiv, hmod] at hread
    exact hread
  have heq := (hentry i hi).symm.trans ((congrArg (fun t => s.pt t 1) htab).trans (hentry j hj))
  have hremove : ∀ k, removeFlags (addFlags (pageSize * k) kernelPteFlags) = pageSize * k :=
    fun k => removeFlags_addFlags (Nat.mul_mod_right _ _) (by decide)
  have hpage := congrArg removeFlags heq
  rw [hremove, hremove] at hpage
  simp only [pageSize, numEntries] at hpage
  omega

/-- The page tables that `pd_init_kernel` makes are apart. -/
lemma kernelApart_of_boot (h : s.dirs d = bootDirectory) : KernelApart d s := by
  intro i hi j hj htab
  rw [Vm.table, Vm.table, h, (bootDirectory_kernel i hi).2, (bootDirectory_kernel j hj).2] at htab
  simp only [pageSize] at htab
  omega

/-- In an orderly state every slot is apart. -/
lemma Orderly.apartAt (ho : Orderly lim s) (hk : KernelApart d s) {i : ℕ} (hi : i < numEntries) :
    ApartAt d s i := by
  intro hpre j hj hprej htab
  have hi0 : s.dirs d i ≠ 0 := ne_zero_of_present hpre
  have hj0 : s.dirs d j ≠ 0 := ne_zero_of_present hprej
  by_cases hik : numKernelPde ≤ i
  · exact (ho.tables.unique hik hi hj hi0 hj0 htab).2
  by_cases hjk : numKernelPde ≤ j
  · exact (ho.tables.unique hjk hj hi hj0 hi0 htab.symm).2.symm
  · exact hk i (not_le.mp hik) j (not_le.mp hjk) htab

/-- In an orderly state every page table is in use. -/
lemma Orderly.tablesKept (ho : Orderly lim s) (d : ℕ) : TablesKept d s :=
  fun _ hi hpre => .inl (ho.tables.live hi (ne_zero_of_present hpre))

/-! ### The loop -/

/-- The last `k` of the calls that map `n` pages from `first` on. -/
def sectionCalls (secs : List MemSection) (first a n : ℕ) : ℕ → List MapCall
  | 0 => []
  | k + 1 =>
      .create (UInt32.ofNat (pageSize * (first + (n - (k + 1)))))
        (UInt32.ofNat (a + pageSize * (n - (k + 1))))
        (UInt32.ofNat (sectionFlags secs (first + (n - (k + 1)))).1)
        (UInt32.ofNat (sectionFlags secs (first + (n - (k + 1)))).2) ::
      sectionCalls secs first a n k

/-- The words of the first `i` pages. -/
def sectionWords (secs : List MemSection) (first a i : ℕ) : List (ℕ × ℕ) :=
  (List.range i).map fun j => (first + j, sectionPte secs first a j)

lemma sectionWords_succ (secs : List MemSection) (first a i : ℕ) :
    sectionWords secs first a (i + 1) =
      sectionWords secs first a i ++ [(first + i, sectionPte secs first a i)] := by
  rw [sectionWords, List.range_succ, List.map_append]
  rfl

/-- What the writes of the words make of a page. -/
lemma foldl_sectionWords (m : ℕ → Option ℕ) (secs : List MemSection) (first a i w : ℕ) :
    (sectionWords secs first a i).foldl wrote m w =
      if first ≤ w ∧ w < first + i then some (sectionPte secs first a (w - first)) else m w := by
  induction i with
  | zero =>
      rw [if_neg (by omega)]
      rfl
  | succ i ih =>
      rw [sectionWords_succ, List.foldl_append, List.foldl_cons, List.foldl_nil, wrote]
      by_cases hw : w = first + i
      · subst hw
        rw [Function.update_self, if_pos (by omega), Nat.add_sub_cancel_left]
      · rw [Function.update_of_ne hw, ih]
        exact if_congr (by omega) rfl rfl

/-- A page is mapped when its word is present. -/
lemma Vm.pageEntry_eq_words {w : ℕ} (hw : Page w) :
    s.pageEntry d w = (s.words d w).filter entryPresent := by
  rw [Vm.words_of_page hw, Vm.pageEntry_eq_word]

/-- A slot that opens maps no page. -/
lemma pageEntry_of_openSlot {i w : ℕ} (hw : Page w)
    (h : s'.words d = openSlot i (s.words d)) : s'.pageEntry d w = s.pageEntry d w := by
  rw [Vm.pageEntry_eq_words hw, Vm.pageEntry_eq_words hw, h]
  by_cases hopen : w / numEntries = i ∧ s.words d w = none
  · have hzero : openSlot i (s.words d) w = some 0 := if_pos hopen
    rw [hzero, hopen.2]
    rfl
  · have hsame : openSlot i (s.words d) w = s.words d w := if_neg hopen
    rw [hsame]

/-- The flags of a page are words. -/
lemma sectionFlags_toNat (secs : List MemSection) (w : ℕ) :
    (UInt32.ofNat (sectionFlags secs w).1).toNat = (sectionFlags secs w).1 ∧
      (UInt32.ofNat (sectionFlags secs w).2).toNat = (sectionFlags secs w).2 := by
  unfold sectionFlags
  cases sectionOf secs w with
  | none => exact ⟨rfl, rfl⟩
  | some ms =>
      exact ⟨congrArg UInt32.toNat UInt32.ofNat_toNat, congrArg UInt32.toNat UInt32.ofNat_toNat⟩

/-- The calls may be made in a batch, from an orderly state. -/
lemma Orderly.replayable (ho : Orderly lim s) (hk : KernelApart d s) (hflags : TableFlags secs)
    (hne : secs ≠ []) (first a n k : ℕ) : Replayable d (sectionCalls secs first a n k) s := by
  refine ⟨fun c _ => ho.apartAt hk (pdeIndex_lt _), fun _ _ _ => ho.tablesKept d, fun c hc _ => ?_⟩
  induction k with
  | zero => cases hc
  | succ k ih =>
      rcases List.mem_cons.mp hc with rfl | hc
      · rw [MapCall.EntryFlags, (sectionFlags_toNat secs _).2]
        exact hflags.sectionFlags hne _
      · exact ih hc

/-- What the loop has done after `i` pages from `first` on: a task for each of them, and no page
that was mapped is changed. -/
structure PagesQueued (s₀ : Vm) (d : ℕ) (secs : List MemSection) (first a i : ℕ) (s : Vm) :
    Prop where
  batch : (s.pds d).batchEnabled = true
  ready : ∀ t ∈ (s.pds d).mappingTasks, SlotReady d s t
  tasks : (s.pds d).mappingTasks.map MappingTask.wordWrite = sectionWords secs first a i
  pages : ∀ w, Page w → s.pageEntry d w = s₀.pageEntry d w
  tables : TablesMade s₀ d secs first i s

/-- **The loop of `vmm_map_sections`**, when it goes through. -/
lemma mapPages_queued (hne : secs ≠ []) (hflags : TableFlags secs) {first : ℕ} {v : UInt32}
    (hv : v.toNat = pageSize * first) (hend : pageSize * (first + n) ≤ 2 ^ 32)
    (hn : a + pageSize * n ≤ 2 ^ 32) : ∀ (k : ℕ) {s : Vm}, k ≤ n →
    Replayable d (sectionCalls secs first a n k) s → PagesQueued s₀ d secs first a (n - k) s →
    wp (mapPages d secs v a n k) (fun r s' => r < 0 ∨ r = 0 ∧ PagesQueued s₀ d secs first a n s')
      (fun _ _ => True) s := by
  intro k
  induction k with
  | zero => exact fun _ _ h => .inr ⟨rfl, h⟩
  | succ k ih =>
      intro s hk hplay h
      rw [mapPages_succ hne hv hend hn hk, wp_bind]
      set i := n - (k + 1) with hidef
      have hi : i < n := by omega
      have hsucc : n - k = i + 1 := by omega
      have hmul : pageSize * i < pageSize * n :=
        Nat.mul_lt_mul_of_pos_left hi FrameManager.pageSize_pos
      have hlt : pageSize * (first + i) < 2 ^ 32 := by
        have hpages : first + i < first + n := Nat.add_lt_add_left hi first
        exact (Nat.mul_lt_mul_of_pos_left hpages FrameManager.pageSize_pos).trans_le hend
      have haddr : (UInt32.ofNat (pageSize * (first + i))).toNat = pageSize * (first + i) :=
        UInt32.toNat_ofNat_of_lt' hlt
      have hframe : (UInt32.ofNat (a + pageSize * i)).toNat = a + pageSize * i :=
        UInt32.toNat_ofNat_of_lt' (show a + pageSize * i < 2 ^ 32 by omega)
      obtain ⟨hpte, hpde⟩ := sectionFlags_toNat secs (first + i)
      have hindex : pdeIndex (pageSize * (first + i)) = (first + i) / numEntries := by
        rw [pdeIndex_eq hlt, Nat.mul_div_cancel_left _ FrameManager.pageSize_pos]
      -- the call, as one of a batch
      have hcall := call_queued hplay h.batch
      rw [← hidef, MapCall.call, MapCall.wordWrite, haddr, hframe, hpte, hpde,
        Nat.mul_div_cancel_left _ FrameManager.pageSize_pos] at hcall
      refine wp_imp (wp_and hcall (pdCreateMapping_queued h.batch)) fun r s₁ hpost => ?_
      obtain ⟨hzero, hneg | ⟨rfl, -, -, s₂, res, hmk, heap, -, hs₁⟩⟩ := hpost
      · rw [wp_ite]
        exact ⟨fun _ => .inl (by decide), fun hge => absurd hneg hge⟩
      obtain ⟨hwords, hrest, hb₁, hkeep, t, ht, hwrite, htasks⟩ := hzero rfl
      rw [wp_ite]
      refine ⟨fun hneg => absurd hneg (lt_irrefl 0), fun _ => ih (by omega) hrest ?_⟩
      have hdirs : s₁.dirs d = s₂.dirs d := by
        rw [hs₁]
        funext j
        simp [Vm.dirs]
      rw [hsucc]
      refine ⟨hb₁, fun u hu => ?_, ?_, fun w hw => ?_, h.tables.next hflags hne ?_⟩
      · rw [htasks, List.mem_append, List.mem_singleton] at hu
        rcases hu with hu | rfl
        · exact hkeep u (h.ready u hu)
        · exact ht
      · rw [htasks, List.map_append, h.tasks, sectionWords_succ, List.map_cons, hwrite]
        rfl
      · exact (pageEntry_of_openSlot hw hwords).trans (h.pages w hw)
      · rw [hindex] at hmk
        rw [hdirs]
        cases hpre : entryPresent (s.dirs d ((first + i) / numEntries)) with
        | true =>
            refine .inl ⟨rfl, ?_⟩
            funext j
            by_cases hj : j = (first + i) / numEntries
            · rw [hj, hmk.dirs_of_present hpre]
            · exact hmk.dirs_of_ne hj
        | false =>
            obtain ⟨p, hp, -, hmade⟩ := hmk.dirs_of_absent hpre
            refine .inr ⟨rfl, p, hp, ?_⟩
            funext j
            by_cases hj : j = (first + i) / numEntries
            · rw [hj, hmade, Function.update_self]
            · rw [Function.update_of_ne hj, hmk.dirs_of_ne hj]

/-! ### The load -/

/-- The `n` pages from `first` on of `d` were mapped to the frame at `a`, with the flags of their
sections, and no other entry of `d` changed. -/
structure LoadedAt (d first n a : ℕ) (secs : List MemSection) (s s' : Vm) : Prop where
  aligned : a % pageSize = 0
  le : a + pageSize * n ≤ 2 ^ 32
  alloc : ∃ fm', fmAlloc n s.fm = (.ok (.ok a), fm')
  pages : ∀ {w}, Page w → s'.pageEntry d w =
    if first ≤ w ∧ w < first + n then present (sectionPte secs first a (w - first))
    else s.pageEntry d w
  tables : ∀ w, first ≤ w → w < first + n →
    TableEntry s d secs first (w / numEntries) (s'.dirs d (w / numEntries))

/-- A load that is known for all directories. -/
lemma Loaded.loadedAt {first : ℕ} (h : Loaded d first n a secs s s') :
    LoadedAt d first n a secs s s' where
  aligned := h.aligned
  le := h.le
  alloc := h.alloc
  pages hw := by
    rw [h.pages hw]
    exact if_congr (and_iff_right rfl) rfl rfl
  tables := h.tables

/-- Getting a frame, whatever the heap answers. -/
lemma withFrame_given (h : LedgerInv lim s) (d n : ℕ) {c₁ c₂ : ℤ} {use : ℕ → VmM ℤ}
    {Q : ℤ → Vm → Prop} (h₁ : ∀ s', Q c₁ s') (h₂ : ∀ s', Q c₂ s')
    (huse : ∀ a s', SameSpace s s' → a % pageSize = 0 → a + pageSize * n ≤ 2 ^ 32 →
      (∃ fm', fmAlloc n s.fm = (.ok (.ok a), fm')) → wp (use a) Q (fun _ _ => True) s') :
    wp (withFrame d n c₁ c₂ use) Q (fun _ _ => True) s := by
  rw [withFrame, wp_bind]
  refine wp_mono (wp_both (liftFm_fmAlloc (E := fun _ _ => True) h.fm n) (wp_run _ s))
    (fun r s₁ hpost => ?_) fun _ _ _ => trivial
  obtain ⟨⟨hsame, hfm, hr⟩, hrun⟩ := hpost
  have hsp : SameSpace s s₁ := .of_fm hsame
  cases r with
  | error _ => exact h₁ _
  | ok a =>
      obtain ⟨-, -, k, hk, hext⟩ := hr
      have hap : Apart s₁.extent := hfm.apart
      have hak : s₁.extent a = some k := by rw [hext, Function.update_self]
      have hle : pageSize * n ≤ pageSize * k := Nat.mul_le_mul_left _ hk
      have hfst : (fmAlloc n s.fm).1 = .ok (.ok a) := congrArg Prod.fst hrun
      dsimp only
      rw [wp_bind]
      refine wp_imp (pdAllocFrame_space d a n _) fun c s₂ hsp₂ => ?_
      rw [wp_ite]
      refine ⟨fun _ => ?_, fun _ => huse a s₂ (hsp.trans hsp₂) (hap.aligned hak)
        ((Nat.add_le_add_left hle a).trans (hap.le hak)) ⟨_, Prod.ext hfst rfl⟩⟩
      rw [wp_bind]
      exact wp_any _ (fun _ s₃ => h₂ s₃) fun _ _ => trivial

/-- **The commit** of a load. -/
lemma PagesQueued.commit {first : ℕ} (h : PagesQueued s₀ d secs first a n s) :
    wp (pdCommitMapping d) (fun _ s' => s'.dirs = s.dirs ∧ ∀ {w}, Page w → s'.pageEntry d w =
      if first ≤ w ∧ w < first + n then present (sectionPte secs first a (w - first))
      else s₀.pageEntry d w) (fun _ _ => True) s := by
  refine wp_and pdCommitMapping_dirs ?_
  rw [pdCommitMapping, wp_bind, wp_gets, wp_bind]
  refine wp_imp (commitTasks_words _ h.ready) fun _ s₁ hwords => ?_
  rw [h.tasks] at hwords
  rw [wp_bind, wp_gets, wp_setPd]
  intro w hw
  set s₂ : Vm := { s₁ with pds := Function.update s₁.pds d { s₁.pds d with
    mappingTasks := [], batchEnabled := false, idle := fun _ => rfl } }
  have hend : s₂.tables d = s₁.tables d := by
    refine Prod.ext ?_ rfl
    funext j
    simp [s₂, Vm.tables, Vm.dirs]
  rw [Vm.pageEntry_eq_words hw, words_of_tables hend, hwords, foldl_sectionWords, ← h.pages w hw,
    Vm.pageEntry_eq_words hw]
  split_ifs with hin
  · rw [present, Option.filter]
  · rfl

/-- **A load that succeeds**, wherever its sections lie and whatever the heap answers: it maps no
page and changes nothing but the heap, or maps the pages between the bounds to a frame. -/
theorem vmmMapSections_loadedAt (ho : Orderly lim s) (hk : KernelApart d s)
    (hflags : TableFlags secs) (hord : InOrder secs garbage)
    (hrun : vmmMapSections d secs garbage s = (.ok 0, s')) :
    secs ≠ [] ∧ ((pageCount (loadBounds secs garbage).1 (loadBounds secs garbage).2 = 0 ∧
      s'.pageEntry d = s.pageEntry d) ∨
    ∃ a, LoadedAt d (firstPage (loadBounds secs garbage).1)
      (pageCount (loadBounds secs garbage).1 (loadBounds secs garbage).2) a secs s s') := by
  have hfail : ∀ {c : ℤ} {P : Prop}, c < 0 → c = 0 → P := fun hc h0 => absurd h0 (ne_of_lt hc)
  have hend := hord.le
  -- only a call that returns 0 is looked at: every refusal is done with at once
  have hwp : wp (vmmMapSections d secs garbage) (fun r s' => r = 0 → secs ≠ [] ∧
      ((pageCount (loadBounds secs garbage).1 (loadBounds secs garbage).2 = 0 ∧
        s'.pageEntry d = s.pageEntry d) ∨
      ∃ a, LoadedAt d (firstPage (loadBounds secs garbage).1)
        (pageCount (loadBounds secs garbage).1 (loadBounds secs garbage).2) a secs s s'))
      (fun _ _ => True) s := by
    rw [vmmMapSections, ← loadBounds]
    generalize loadBounds secs garbage = bounds at hend ⊢
    obtain ⟨low, high⟩ := bounds
    dsimp only at hend ⊢
    rw [wp_ite]
    refine ⟨fun _ => hfail (by decide), fun hne => ?_⟩
    rw [wp_ite]
    refine ⟨fun hzero _ => ⟨hne, .inl ⟨hzero, rfl⟩⟩, fun _ => ?_⟩
    refine withFrame_given ho.toLedgerInv d _ (fun _ => hfail (by decide))
      (fun _ => hfail (by decide)) fun a s₁ hsp hal hle halloc => ?_
    -- the loop goes over whole pages
    have hfirst : (pageAlignDown low).toNat = pageSize * firstPage low := by
      rw [← firstPage_eq, Nat.mul_div_cancel' (Nat.dvd_of_mod_eq_zero (pageAlignDown_mod low))]
    have hb₁ : (s₁.pds d).batchEnabled = false := (hsp.batch d).trans (ho.idle d)
    rw [wp_bind, pdBeginMapping, wp_bind, wp_gets, wp_ite]
    refine ⟨fun hon => absurd hon (by simp [hb₁]), fun _ => ?_⟩
    rw [wp_bind, wp_setPd, wp_pure, wp_ite]
    refine ⟨fun hneg => absurd hneg (lt_irrefl 0), fun _ => ?_⟩
    set s₂ : Vm := { s₁ with
      pds := Function.update s₁.pds d { s₁.pds d with batchEnabled := true, idle := by simp } }
    have hdirs : s₂.dirs d = s.dirs d := by
      rw [← hsp.dirs]
      funext j
      simp [s₂, Vm.dirs]
    have hempty : (s₂.pds d).mappingTasks = [] := by
      simpa [s₂] using (s₁.pds d).idle hb₁
    -- beginning the batch leaves the tables as they were, so the calls can be replayed from here
    have hplay : Replayable d (sectionCalls secs (firstPage low) a
        (pageCount low high) (pageCount low high)) s₂ := by
      have hstart := ho.replayable hk hflags hne (firstPage low) a (pageCount low high)
        (pageCount low high)
      refine ⟨fun c hc => ?_, fun c hc hn i hi hpre => .inl ?_, fun c hc hn => ?_⟩
      · have hap := hstart.apart c hc
        unfold ApartAt Vm.table at hap ⊢
        rwa [hdirs]
      · have hlive : s₂.live = s.live := hsp.live
        rw [hdirs] at hpre
        rw [hlive, Vm.table, hdirs]
        exact ho.tables.live hi (ne_zero_of_present hpre)
      · refine hstart.flags c hc ?_
        cases c with
        | create v p f g =>
            rw [MapCall.Needs, hdirs] at hn
            exact hn
        | remove v => exact hn
    have hpage : ∀ w, Page w → s₂.pageEntry d w = s.pageEntry d w := by
      intro w hw
      have htables : s₂.tables d = s.tables d := Prod.ext hdirs hsp.pt
      rw [Vm.pageEntry_eq_words hw, Vm.pageEntry_eq_words hw, words_of_tables htables]
    -- no page is queued yet
    have hqueued : PagesQueued s d secs (firstPage low) a (pageCount low high - pageCount low high)
        s₂ := by
      rw [Nat.sub_self]
      refine ⟨by simp [s₂], by simp [hempty], by rw [hempty]; rfl, hpage, ?_, fun j _ => ?_⟩
      · exact fun w h1 h2 => absurd h2 (not_lt.mpr h1)
      · rw [hdirs]
    rw [wp_bind]
    refine wp_imp (mapPages_queued hne hflags hfirst hend hle _ le_rfl hplay hqueued)
      fun r s₃ hpost => ?_
    rw [wp_ite]
    constructor
    -- a page could not be mapped: the call fails
    · intro hneg
      rw [wp_bind]
      refine wp_any _ (fun _ s₄ => ?_) fun _ _ => trivial
      rw [wp_bind]
      exact wp_any _ (fun _ _ => hfail hneg) fun _ _ => trivial
    -- every page is queued, and the commit writes them
    · intro hge
      obtain ⟨-, h₃⟩ := hpost.resolve_left hge
      rw [wp_bind]
      refine wp_imp h₃.commit fun _ s₄ hpost => fun _ => ⟨hne, .inr ⟨a, ?_⟩⟩
      obtain ⟨hd₄, hpages₄⟩ := hpost
      refine ⟨hal, hle, halloc, fun hw => hpages₄ hw, fun w h1 h2 => ?_⟩
      rw [hd₄]
      exact h₃.tables.made w h1 h2
  exact wp_ok hwp hrun rfl

end ShrekOS
