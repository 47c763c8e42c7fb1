/-
The regions of `new_pages` and `remove_pages` in one process that is not forked.

* `Region`: what a successful `vmm_new_user_page` made;
* `Bracketed`: **the invariant**: every region has its pages, its marks and its frame,
  and no other page is marked as a start;
* `pagesMachine`: the runs of the two operations on one directory, with the regions that
  were made and not removed;
* `removesRegions_of_user`: **a removal succeeds for the base of a region and for no
  other one**, and takes that region alone;
* `not_removesRegions_of_zero`: page `0`, which the kernel does not map, can be made a
  region and never be removed.
-/
import ShrekOS.Mem.KernelSpace
import ShrekOS.Mem.UserPages

namespace ShrekOS

open Kit Kit.Cmd Vm

variable {d : ℕ} {s s' : Vm}

/-! ### Regions -/

/-- What `vmm_new_user_page` made: `numPages` pages from `base` on, in the frame. -/
structure Region where
  base : UInt32
  numPages : ℕ
  frame : ℕ

namespace Region

variable {R R' : Region}

/-- The first page of a region. -/
def first (R : Region) : ℕ := R.base.toNat / pageSize

/-- The page is one of the region. -/
def Covers (R : Region) (w : ℕ) : Prop := R.first ≤ w ∧ w < R.first + R.numPages

instance (R : Region) (w : ℕ) : Decidable (R.Covers w) := inferInstanceAs (Decidable (_ ∧ _))

/-- The region lies in user memory, is mapped page by page to its frame, with a mark at
its start and at its end, and the frame is recorded. -/
structure Holds (d : ℕ) (s : Vm) (R : Region) : Prop where
  aligned : R.base.toNat % pageSize = 0
  low : userMemStart ≤ R.base.toNat
  pos : 0 < R.numPages
  high : R.base.toNat + pageSize * R.numPages ≤ 2 ^ 32
  frame : R.frame % pageSize = 0
  entries : ∀ {w}, R.Covers w →
    s.pageEntry d w = some (userPte R.frame R.numPages (w - R.first))
  recorded : ⟨R.frame, R.numPages⟩ ∈ s.lists d

/-- The regions have no page and no frame in common. -/
def Apart (R R' : Region) : Prop := (∀ w, R.Covers w → ¬ R'.Covers w) ∧ R.frame ≠ R'.frame

lemma Apart.symm (h : Apart R R') : Apart R' R := ⟨fun w h1 h2 => h.1 w h2 h1, h.2.symm⟩

instance : Std.Symm Apart := ⟨fun _ _ h => h.symm⟩

namespace Holds

lemma covers_first (h : R.Holds d s) : R.Covers R.first := ⟨le_rfl, Nat.lt_add_of_pos_right h.pos⟩

/-- The pages of a region are pages of the user. -/
lemma page (h : R.Holds d s) {w : ℕ} (hw : R.Covers w) : numKernelPte ≤ w ∧ w < 2 ^ 20 := by
  obtain ⟨h1, h2⟩ := hw
  have hal := h.aligned
  have hlow := h.low
  have hhigh := h.high
  simp only [first, userMemStart, numKernelPte, pageSize] at *
  omega

/-- The first entry of a region is marked as a start and leads to the frame. -/
lemma start (h : R.Holds d s) : ∃ v, s.pageEntry d R.first = some v ∧ isUserStart v = true ∧
    removeFlags v = R.frame := by
  refine ⟨_, h.entries h.covers_first, ?_, ?_⟩
  · rw [userPte_start h.frame, Nat.sub_self]
    rfl
  · rw [removeFlags_userPte h.frame, Nat.sub_self, mul_zero, add_zero]

/-- The last page of a region is the first one that is marked as an end. -/
lemma ends (h : R.Holds d s) : EndsAt s d R.first (R.first + R.numPages - 1) := by
  have hpos := h.pos
  refine ⟨by omega, fun w h1 h2 => ⟨_, h.entries ⟨h1, by omega⟩, ?_⟩⟩
  rw [userPte_end h.frame, decide_eq_true_eq]
  omega

/-- A region holds as long as its pages and its record are there. -/
lemma of_same (h : R.Holds d s) (hpages : ∀ {w}, R.Covers w → s'.pageEntry d w = s.pageEntry d w)
    (hrec : ⟨R.frame, R.numPages⟩ ∈ s'.lists d) : R.Holds d s' :=
  ⟨h.aligned, h.low, h.pos, h.high, h.frame, fun hw => by rw [hpages hw, h.entries hw], hrec⟩

end Holds

end Region

/-! ### The invariant -/

/-- **The regions account for the marks**: each of them holds, they are apart, and no
other user page is marked as a start. The kernel has mapped its pages but for page `0`. -/
structure Bracketed (d : ℕ) (regions : List Region) (s : Vm) : Prop where
  kernel : ∀ {w}, 0 < w → w < numKernelPte → s.pageEntry d w ≠ none
  holds : ∀ R ∈ regions, R.Holds d s
  apart : regions.Pairwise Region.Apart
  plain : ∀ {w v}, UserPage w → s.pageEntry d w = some v → isUserStart v = true →
    ∃ R ∈ regions, w = R.first

namespace Bracketed

variable {lim : ℕ} {regions : List Region} {R : Region}

/-- Nothing happened to the pages and the records of the process. -/
lemma of_same (h : Bracketed d regions s)
    (hpages : ∀ {w}, Page w → s'.pageEntry d w = s.pageEntry d w)
    (hlists : s'.lists d = s.lists d) :
    Bracketed d regions s' := by
  refine ⟨fun {w} h0 hw => ?_, fun R hR => ?_, h.apart, fun {w v} hu hw hv => ?_⟩
  · have hpage : Page w := page_of_lt (hw.trans (by decide))
    rw [hpages hpage]
    exact h.kernel h0 hw
  · have hholds := h.holds R hR
    exact hholds.of_same (fun hw => hpages (page_of_lt (hholds.page hw).2))
      (hlists ▸ hholds.recorded)
  · rw [hpages hu.page] at hw
    exact h.plain hu hw hv

/-- Pages that are not mapped are pages of the user, but for page `0`. -/
lemma user (h : Bracketed d regions s) {base numPages : UInt32}
    (hzero : ¬ (base = 0 ∧ numPages = 1))
    (hfree : ∀ i < numPages.toNat, s.pageEntry d (base.toNat / pageSize + i) = none)
    (hpos : 0 < numPages.toNat) (hal : base.toNat % pageSize = 0) : userMemStart ≤ base.toNat := by
  by_contra hlow
  have hk : base.toNat / pageSize < numKernelPte := by
    simp only [userMemStart, numKernelPte, pageSize] at *
    omega
  rcases Nat.eq_zero_or_pos (base.toNat / pageSize) with h0 | h0
  · -- the page after page `0` is one of the kernel
    have hbase : base.toNat = 0 := by
      rw [← Nat.div_add_mod base.toNat pageSize, h0, hal, mul_zero, add_zero]
    have hone : numPages.toNat ≠ 1 := fun hone =>
      hzero ⟨UInt32.toNat_inj.mp hbase, UInt32.toNat_inj.mp hone⟩
    have hnext := hfree 1 (by omega)
    rw [h0, zero_add] at hnext
    exact h.kernel one_pos (by decide) hnext
  · exact h.kernel h0 hk (hfree 0 hpos)

/-- New pages are a new region. -/
lemma create (h : Bracketed d regions s) (hl : LedgerInv lim s) {base : UInt32} {n a : ℕ}
    (hal : base.toNat % pageSize = 0) (hlow : userMemStart ≤ base.toNat) (hpos : 0 < n)
    (hhigh : base.toNat + pageSize * n ≤ 2 ^ 32) (hc : Created d (base.toNat / pageSize) n a s s') :
    Bracketed d (⟨base, n, a⟩ :: regions) s' := by
  set R₀ : Region := ⟨base, n, a⟩ with hR₀
  have hpages : ∀ {w}, Page w → s'.pageEntry d w =
      if R₀.Covers w then some (userPte a n (w - R₀.first)) else s.pageEntry d w := by
    intro w hw
    rw [hc.pages hw]
    exact if_congr (by rw [eq_self, true_and]; rfl) rfl rfl
  have hlist : s'.lists d = ⟨a, n⟩ :: s.lists d := by rw [hc.lists, Function.update_self]
  have hnew : R₀.Holds d s' := by
    refine ⟨hal, hlow, hpos, hhigh, hc.aligned, fun {w} hw => ?_, by rw [hlist]; exact .head _⟩
    have hpage : Page w := by
      obtain ⟨h1, h2⟩ := hw
      refine page_of_lt ?_
      simp only [hR₀, Region.first, pageSize] at *
      omega
    rw [hpages hpage, if_pos hw]
  -- the pages of the other regions were mapped before
  have hold : ∀ {w}, R₀.Covers w → s.pageEntry d w = none := by
    intro w hw
    have hlt : w < R₀.first + n := hw.2
    have hunmapped := hc.unmapped (w - R₀.first) (by have := hw.1; omega)
    rwa [show base.toNat / pageSize = R₀.first from rfl, Nat.add_sub_cancel' hw.1] at hunmapped
  have hfree : ∀ R ∈ regions, ∀ w, R₀.Covers w → ¬ R.Covers w := by
    intro R hR w h0 hw
    have hnone := hold h0
    rw [(h.holds R hR).entries hw] at hnone
    simp at hnone
  refine ⟨fun {w} h0 hw => ?_, fun R hR => ?_, ?_, fun {w v} hu hw hv => ?_⟩
  · have hnot : ¬ R₀.Covers w := fun hw' => absurd (hnew.page hw').1 (not_le.mpr hw)
    rw [hpages (page_of_lt (hw.trans (by decide))), if_neg hnot]
    exact h.kernel h0 hw
  · rcases List.mem_cons.mp hR with rfl | hR
    · exact hnew
    · have hholds := h.holds R hR
      refine hholds.of_same (fun {w} hw => ?_) (by rw [hlist]; exact .tail _ hholds.recorded)
      rw [hpages (page_of_lt (hholds.page hw).2), if_neg fun h0 => hfree R hR w h0 hw]
  · refine List.pairwise_cons.mpr ⟨fun R hR => ⟨hfree R hR, ?_⟩, h.apart⟩
    -- the frame of the other region is allocated, and the new one was not
    rintro heq
    obtain ⟨k, hk, -⟩ := hl.balanced.recorded (h.holds R hR).recorded
    have hvacant := hc.vacant
    rw [show a = R.frame from heq, hk] at hvacant
    simp at hvacant
  · rw [hpages hu.page] at hw
    split_ifs at hw with hcov
    · obtain rfl := Option.some.inj hw
      rw [userPte_start hc.aligned, decide_eq_true_eq] at hv
      exact ⟨R₀, .head _, by have := hcov.1; omega⟩
    · obtain ⟨R, hR, hfirst⟩ := h.plain hu hw hv
      exact ⟨R, .tail _ hR, hfirst⟩

/-- Different regions are apart. -/
lemma apart_of_ne (h : Bracketed d regions s) {R R' : Region} (hR : R ∈ regions)
    (hR' : R' ∈ regions) (hne : R ≠ R') : R.Apart R' :=
  h.apart.forall hR hR' hne

/-- A region is removed. -/
lemma remove (h : Bracketed d regions s) (hR : R ∈ regions)
    (hu : Unmapped d R.first (R.first + R.numPages - 1) R.frame s s') :
    Bracketed d (regions.filter fun R' => R'.base ≠ R.base) s' := by
  have hholds := h.holds R hR
  have hpages : ∀ {w}, Page w → s'.pageEntry d w =
      if R.Covers w then none else s.pageEntry d w := by
    intro w hw
    have hpos := hholds.pos
    rw [hu.pages hw]
    refine if_congr ?_ rfl rfl
    rw [eq_self, true_and, Region.Covers]
    omega
  have hmem : ∀ R' ∈ regions.filter fun R' => R'.base ≠ R.base, R' ∈ regions ∧ R.Apart R' := by
    intro R' hR'
    obtain ⟨hR', hne⟩ := List.mem_filter.mp hR'
    refine ⟨hR', h.apart_of_ne hR hR' ?_⟩
    rintro rfl
    simp at hne
  refine ⟨fun {w} h0 hw => ?_, fun R' hR' => ?_, h.apart.filter _, fun {w v} hw hv hstart => ?_⟩
  · have hnot : ¬ R.Covers w := fun hw' => absurd (hholds.page hw').1 (not_le.mpr hw)
    rw [hpages (page_of_lt (hw.trans (by decide))), if_neg hnot]
    exact h.kernel h0 hw
  · obtain ⟨hR'', hap⟩ := hmem R' hR'
    have hholds' := h.holds R' hR''
    refine hholds'.of_same (fun {w} hw => ?_) ?_
    · rw [hpages (page_of_lt (hholds'.page hw).2), if_neg fun hw' => hap.1 w hw' hw]
    · rw [hu.lists, Function.update_self]
      refine (List.mem_eraseP_of_neg ?_).mpr hholds'.recorded
      simpa using hap.2.symm
  · rw [hpages hw.page] at hv
    split_ifs at hv with hcov
    obtain ⟨R', hR', hfirst⟩ := h.plain hw hv hstart
    refine ⟨R', List.mem_filter.mpr ⟨hR', ?_⟩, hfirst⟩
    -- the region whose start is left is not the one that was removed
    rw [decide_eq_true_eq]
    intro hbase
    refine hcov ?_
    have heq : R.first = R'.first := by rw [Region.first, Region.first, hbase]
    rw [hfirst, ← heq]
    exact hholds.covers_first

/-- **The base of a region**: it is removed, if the heap has two answers for each page. -/
theorem removal (h : Bracketed d regions s) (hl : LedgerInv lim s) (hs : Settled s)
    (hR : R ∈ regions) :
    wp (vmmRemoveUserPage d R.base) (fun r s' => r = 0 ∧ LedgerInv lim s' ∧ Settled s' ∧
      Unmapped d R.first (R.first + R.numPages - 1) R.frame s s')
      (fun _ _ => s.heap.length < 2 * R.numPages) s := by
  have hholds := h.holds R hR
  obtain ⟨v, hread, hstart, hframe⟩ := hholds.start
  have hpos := hholds.pos
  have hlast : R.first + R.numPages - 1 < 2 ^ 20 :=
    (hholds.page ⟨by omega, by omega⟩).2
  refine wp_mono (vmmRemoveUserPage_ends hl hs hholds.low hholds.aligned hread hstart hlast
    hholds.ends ⟨_, hholds.recorded, hframe.symm⟩) (fun r s₁ ⟨hr, hl₁, hs₁, hu⟩ => ?_)
    fun _ _ hfault => ?_
  · rw [hframe] at hu
    exact ⟨hr, hl₁, hs₁, hu⟩
  · rw [show R.base.toNat / pageSize = R.first from rfl] at hfault
    omega

/-- **Any other base** is refused. -/
theorem refusal {E : Fault → Vm → Prop} (h : Bracketed d regions s) {base : UInt32}
    (hbase : ∀ R ∈ regions, R.base ≠ base) :
    wp (vmmRemoveUserPage d base) (fun r s' => r < 0 ∧ s' = s) E s := by
  refine vmmRemoveUserPage_refused fun hlow hal v hread => ?_
  rw [← Bool.not_eq_true]
  intro hstart
  have hu : UserPage (base.toNat / pageSize) := by
    have hlt := base.toNat_lt
    simp only [UserPage, userMemStart, pageSize, numEntries, numKernelPde] at *
    omega
  obtain ⟨R, hR, hfirst⟩ := h.plain hu hread hstart
  have hal' := (h.holds R hR).aligned
  refine hbase R hR (UInt32.toNat_inj.mp ?_)
  simp only [Region.first, pageSize] at *
  omega

end Bracketed

/-! ### Runs -/

/-- The entry has no mark. -/
def NoMark (v : ℕ) : Prop := isUserStart v = false ∧ isUserEnd v = false

instance (v : ℕ) : Decidable (NoMark v) := inferInstanceAs (Decidable (_ ∧ _))

/-- An address space without a mark, as `pcb_load_prog` leaves it. -/
structure Unmarked (d : ℕ) (s : Vm) : Prop where
  ledger : ∃ lim, LedgerInv lim s
  tables : Tables s.dirs s.live
  idle : ∀ e, (s.pds e).batchEnabled = false
  kernel : ∀ {w}, 0 < w → w < numKernelPte → s.pageEntry d w ≠ none
  plain : ∀ {w v}, UserPage w → s.pageEntry d w = some v → NoMark v

/-- A virtual memory with the regions that were made and not removed. -/
structure Tracked where
  vm : Vm
  regions : List Region

/-- A call with the answers the heap gives during it, or the contents of memory that is
not in use change. -/
inductive PagesStep where
  | newPages (base numPages : UInt32) (heap : List (Option ℕ))
  | removePages (base : UInt32) (heap : List (Option ℕ))
  | scribble (memory : ℕ → ℕ → ℕ)

/-- The frame that the directory recorded last. -/
def Vm.lastFrame (s : Vm) (d : ℕ) : ℕ := ((s.lists d).head?.map FrameMetadata.pAddr).getD 0

/-- The runs of `vmm_new_user_page` and `vmm_remove_user_page` on one directory. -/
def pagesMachine (d : ℕ) : Machine Tracked PagesStep where
  init t := Unmarked d t.vm ∧ t.regions = []
  step t a t' :=
    match a with
    | .newPages base numPages heap => ∃ r,
        vmmNewUserPage d base numPages { t.vm with heap := heap } = (.ok r, t'.vm) ∧
        t'.regions = if r = 0 then ⟨base, numPages.toNat, t'.vm.lastFrame d⟩ :: t.regions
          else t.regions
    | .removePages base heap => ∃ r,
        vmmRemoveUserPage d base { t.vm with heap := heap } = (.ok r, t'.vm) ∧
        t'.regions = if r = 0 then t.regions.filter fun R => R.base ≠ base else t.regions
    | .scribble memory => t'.vm = t.vm.scribble memory ∧ t'.regions = t.regions

/-- The heap answers every request of the step. -/
def PagesStep.HeapSucceeds : PagesStep → Prop
  | .newPages _ _ heap => ∀ r ∈ heap, r ≠ none
  | .removePages _ heap => ∀ r ∈ heap, r ≠ none
  | .scribble _ => True

/-- The step does not ask for page `0`. -/
def PagesStep.User : PagesStep → Prop
  | .newPages base numPages _ => ¬ (base = 0 ∧ numPages = 1)
  | .removePages _ _ => True
  | .scribble _ => True

/-- The region was unmapped, its frame was given back, and nothing else changed. -/
structure Removed (d : ℕ) (R : Region) (s s' : Vm) : Prop where
  mapped : ∀ {w}, R.Covers w → s.pageEntry d w ≠ none
  pages : ∀ {e w}, Page w →
    s'.pageEntry e w = if e = d ∧ R.Covers w then none else s.pageEntry e w
  allocated : s.extent R.frame ≠ none
  extent : s'.extent = Function.update s.extent R.frame none
  recorded : ⟨R.frame, R.numPages⟩ ∈ s.lists d
  lists : s'.lists = Function.update s.lists d ((s.lists d).eraseP fun m => m.pAddr = R.frame)

/-- Every removal returns, if the heap has two answers for each page. It returns `0` for
the base of a region and for no other one. Then it removes that region alone, and
otherwise nothing changes. -/
def RemovesRegions (d : ℕ) (t : Tracked) : Prop :=
  ∀ (base : UInt32) (heap : List (Option ℕ)), (∀ r ∈ heap, r ≠ none) →
    (∀ R ∈ t.regions, R.base = base → 2 * R.numPages ≤ heap.length) →
    ∃ r s', vmmRemoveUserPage d base { t.vm with heap := heap } = (.ok r, s') ∧
      (r = 0 ↔ ∃ R ∈ t.regions, R.base = base) ∧
      (∀ R ∈ t.regions, R.base = base → Removed d R t.vm s') ∧
      (r ≠ 0 → s' = { t.vm with heap := heap })

/-- **The invariant of the runs.** -/
structure Tracks (d lim : ℕ) (t : Tracked) : Prop where
  ledger : LedgerInv lim t.vm
  tables : Tables t.vm.dirs t.vm.live
  idle : ∀ e, (t.vm.pds e).batchEnabled = false
  bracketed : Bracketed d t.regions t.vm

namespace Tracks

variable {lim : ℕ} {t t' : Tracked}

lemma settled (h : Tracks d lim t) {heap : List (Option ℕ)} (hheap : ∀ r ∈ heap, r ≠ none) :
    Settled { t.vm with heap := heap } := ⟨h.tables, hheap, h.idle⟩

/-- In a state of a run every removal does what it should. -/
lemma removes (h : Tracks d lim t) : RemovesRegions d t := by
  intro base heap hheap hlen
  by_cases hbase : ∃ R ∈ t.regions, R.base = base
  · obtain ⟨R, hR, rfl⟩ := hbase
    have hb : Bracketed d t.regions { t.vm with heap := heap } :=
      h.bracketed.of_same (fun _ => rfl) rfl
    have hrun := hb.removal (h.ledger.of_eq rfl rfl) (h.settled hheap) hR
    obtain ⟨r, s', hrun, rfl, -, -, hu⟩ := wp_returns (wp_mono hrun (fun _ _ hq => hq)
      fun _ _ hfault => absurd (hlen R hR rfl) (not_le.mpr hfault))
    refine ⟨0, s', hrun, iff_of_true rfl ⟨R, hR, rfl⟩, fun R' hR' hbase => ?_, by simp⟩
    obtain rfl : R = R' := by
      by_contra hne
      have hap := h.bracketed.apart_of_ne hR hR' hne
      have hfirst : R'.first = R.first := by rw [Region.first, Region.first, hbase]
      refine hap.1 R.first (h.bracketed.holds R hR).covers_first ?_
      rw [← hfirst]
      exact (h.bracketed.holds R' hR').covers_first
    have hholds := h.bracketed.holds R hR
    have hpos := hholds.pos
    refine ⟨fun hw => by simp [hholds.entries hw], fun {e w} hw => ?_,
      h.ledger.extent_ne_none ⟨_, hholds.recorded, rfl⟩, hu.extent, hholds.recorded, hu.lists⟩
    rw [hu.pages hw]
    refine if_congr ?_ rfl rfl
    rw [Region.Covers]
    omega
  · obtain ⟨r, s', hrun, hneg, rfl⟩ := wp_returns ((h.bracketed.of_same (fun _ => rfl) rfl :
      Bracketed d _ { t.vm with heap := heap }).refusal fun R hR heq => hbase ⟨R, hR, heq⟩)
    refine ⟨r, _, hrun, iff_of_false hneg.ne hbase, fun R hR heq => absurd ⟨R, hR, heq⟩ hbase,
      fun _ => rfl⟩

/-- Memory that is not in use does not matter. -/
lemma scribble (h : Tracks d lim t) (memory : ℕ → ℕ → ℕ) :
    Tracks d lim ⟨t.vm.scribble memory, t.regions⟩ := by
  refine ⟨h.ledger.of_eq rfl rfl, h.tables, h.idle, h.bracketed.of_same (fun {w} hw => ?_) rfl⟩
  refine pageEntry_congr rfl fun hpre => ?_
  rw [Vm.scribble]
  dsimp only
  rw [if_pos (h.tables.live hw (ne_zero_of_present hpre))]

/-- **Every step keeps the invariant**, unless it asks for page `0`. -/
lemma step (h : Tracks d lim t) {a : PagesStep} (hheap : a.HeapSucceeds) (ha : a.User)
    (hstep : (pagesMachine d).step t a t') : Tracks d lim t' := by
  obtain ⟨vm, regions⟩ := t
  obtain ⟨vm', regions'⟩ := t'
  cases a with
  | newPages base numPages heap =>
      obtain ⟨r, hrun, hregions⟩ := hstep
      dsimp only at hrun hregions
      have hb : Bracketed d regions { vm with heap := heap } :=
        h.bracketed.of_same (fun _ => rfl) rfl
      have hl : LedgerInv lim { vm with heap := heap } := h.ledger.of_eq rfl rfl
      obtain ⟨hl', hs', hcase⟩ := wp_ok (vmmNewUserPage_created hl (h.settled hheap) d
        (hb.user ha)) hrun
      subst hregions
      rcases hcase with ⟨hneg, -, hsame⟩ | ⟨rfl, hreq, hlow, a, hc⟩
      · rw [if_neg hneg.ne]
        exact ⟨hl', hs'.tables, hs'.idle, hb.of_same hsame.pages (by rw [hsame.lists])⟩
      · have hlast : vm'.lastFrame d = a := by
          rw [Vm.lastFrame, hc.lists, Function.update_self]
          rfl
        rw [if_pos rfl, hlast]
        exact ⟨hl', hs'.tables, hs'.idle, hb.create hl hreq.aligned hlow hreq.pos hreq.fits hc⟩
  | removePages base heap =>
      obtain ⟨r, hrun, hregions⟩ := hstep
      dsimp only at hrun hregions
      have hb : Bracketed d regions { vm with heap := heap } :=
        h.bracketed.of_same (fun _ => rfl) rfl
      have hl : LedgerInv lim { vm with heap := heap } := h.ledger.of_eq rfl rfl
      subst hregions
      by_cases hbase : ∃ R ∈ regions, R.base = base
      · obtain ⟨R, hR, rfl⟩ := hbase
        obtain ⟨rfl, hl', hs', hu⟩ := wp_ok (hb.removal hl (h.settled hheap) hR) hrun
        rw [if_pos rfl]
        exact ⟨hl', hs'.tables, hs'.idle, hb.remove hR hu⟩
      · obtain ⟨hneg, rfl⟩ := wp_ok (hb.refusal (E := fun _ _ => True)
          fun R hR heq => hbase ⟨R, hR, heq⟩) hrun
        rw [if_neg hneg.ne]
        exact ⟨hl, h.tables, h.idle, hb⟩
  | scribble memory =>
      obtain ⟨hvm, hregions⟩ := hstep
      dsimp only at hvm hregions
      subst hvm hregions
      exact h.scribble memory

end Tracks

/-- An address space without a mark has no regions. -/
lemma Unmarked.tracks (h : Unmarked d s) : ∃ lim, Tracks d lim ⟨s, []⟩ := by
  obtain ⟨lim, hl⟩ := h.ledger
  refine ⟨lim, hl, h.tables, h.idle, h.kernel, by simp, .nil, fun hu hw hv => ?_⟩
  rw [(h.plain hu hw).1] at hv
  simp at hv

/-- **Regions are removed whole, and nothing else is**: in every run in which the heap
answers and nobody asks for page `0`, whatever the arguments. -/
theorem removesRegions_of_user {t : Tracked}
    (h : (pagesMachine d).Reach (fun _ a => a.HeapSucceeds ∧ a.User) t) : RemovesRegions d t := by
  have hinv : ∃ lim, Tracks d lim t := by
    refine Machine.Reach.inv (I := fun t => ∃ lim, Tracks d lim t) ?_ ?_ h
    · rintro ⟨vm, regions⟩ ⟨hinit, hnil⟩
      dsimp only at hinit hnil
      subst hnil
      exact hinit.tracks
    · rintro t a t' ⟨lim, ht⟩ ha hstep
      exact ⟨lim, ht.step ha.1 ha.2 hstep⟩
  obtain ⟨lim, htracks⟩ := hinv
  exact htracks.removes

/-! ### Loading a program -/

/-- The flags of the sections of a program: no marks, and page tables that are present. -/
def LoadFlags (ms : MemSection) : Prop :=
  NoMark ms.pteF.toNat ∧ ms.pdeF.toNat < 2 ^ 12 ∧ entryPresent ms.pdeF.toNat = true

instance (ms : MemSection) : Decidable (LoadFlags ms) := inferInstanceAs (Decidable (_ ∧ _))

lemma NoMark.addFlags {p f : ℕ} (hf : NoMark f) (hp : p % pageSize = 0) :
    NoMark (addFlags p f) := by
  rw [NoMark, isUserStart_addFlags hp, isUserEnd_addFlags hp]
  exact hf

/-- The loop of `vmm_map_sections` adds tasks without marks. -/
lemma mapPages_staged {M : ℕ → ℕ → Option ℕ} {secs : List MemSection} (hne : secs ≠ [])
    (hflags : ∀ ms ∈ secs, LoadFlags ms) {v : UInt32} (hv : v.toNat % pageSize = 0) {a n : ℕ}
    (hlow : userMemStart ≤ v.toNat) (hhigh : v.toNat + pageSize * n ≤ 2 ^ 32)
    (ha : a % pageSize = 0) : ∀ (k : ℕ) {s : Vm}, k ≤ n → Staged d M s →
      (∀ t ∈ (s.pds d).mappingTasks, NoMark t.pte) →
      wp (mapPages d secs v a n k) (fun r s' => r = 0 ∧ Staged d M s' ∧
        ∀ t ∈ (s'.pds d).mappingTasks, NoMark t.pte) (fun e _ => Halts e) s := by
  -- by induction on the pages left; the tasks so far carry no mark
  intro k
  induction k with
  | zero => exact fun _ h ht => ⟨rfl, h, ht⟩
  | succ k ih =>
      intro s hk h ht
      set i := n - (k + 1) with hidef
      have hva : (v + UInt32.ofNat (pageSize * i)).toNat % pageSize = 0 := by
        rw [toNat_add_page]
        simp only [pageSize] at *
        omega
      have hu : UserPage ((v + UInt32.ofNat (pageSize * i)).toNat / pageSize) := by
        rw [toNat_add_page]
        simp only [UserPage, userMemStart, pageSize, numEntries, numKernelPde] at *
        omega
      have hpa : (a + pageSize * i) % 2 ^ 32 % pageSize = 0 := by
        simp only [pageSize] at *
        omega
      -- a page with any flags that carry no mark
      have hpage : ∀ {f g : ℕ}, NoMark f → g < 2 ^ 12 → entryPresent g = true →
          wp (do
            let r ← pdCreateMapping d (v + UInt32.ofNat (pageSize * i)).toNat
              ((a + pageSize * i) % 2 ^ 32) f g
            if r < 0 then pure (-4) else mapPages d secs v a n k)
            (fun r s' => r = 0 ∧ Staged d M s' ∧
              ∀ t ∈ (s'.pds d).mappingTasks, NoMark t.pte) (fun e _ => Halts e) s := by
        intro f g hf hg hpre
        rw [wp_bind]
        refine wp_imp (pdCreateMapping_staged h (UInt32.toNat_lt _) hva hpa hg hpre hu)
          fun c s₁ hpost => ?_
        obtain ⟨hc, h₁, r, ht₁⟩ := hpost
        subst hc
        rw [wp_ite]
        refine ⟨fun hneg => absurd hneg (lt_irrefl 0), fun _ => ih (by omega) h₁ fun t hmem => ?_⟩
        rw [ht₁, List.mem_append, List.mem_singleton] at hmem
        rcases hmem with hmem | rfl
        · exact ht t hmem
        · exact hf.addFlags hpa
      obtain ⟨hcode, hmem⟩ := boundingSection_page hne hva
      rw [mapPages, ← hidef]
      rcases hb : msGetBoundingSection secs (v + UInt32.ofNat (pageSize * i))
        (v + UInt32.ofNat (pageSize * i) + 4095) with ⟨code, ms⟩
      rw [hb] at hcode hmem
      dsimp only
      rw [wp_ite]
      refine ⟨fun hneg => absurd hneg (not_lt.mpr hcode), fun _ => ?_⟩
      cases ms with
      | none => exact hpage (by decide) (by decide) rfl
      | some ms =>
          obtain ⟨hpte, hpde, hpre⟩ := hflags ms (hmem ms rfl)
          exact hpage hpte hpde hpre

/-- What the writes of a batch leave of a page, or put there. -/
lemma foldl_stage_cases {m : ℕ → Option ℕ} {w v : ℕ} : ∀ (us : List (ℕ × ℕ)),
    us.foldl stage m w = some v → m w = some v ∨ ∃ u ∈ us, u.2 = v
  | [], h => .inl h
  | u :: us, h => by
      rcases foldl_stage_cases us h with h | ⟨u', hu', heq⟩
      · rw [stage, Function.update_apply] at h
        split_ifs at h
        · refine .inr ⟨u, .head us, ?_⟩
          rw [present] at h
          split_ifs at h
          exact Option.some.inj h
        · exact .inl h
      · exact .inr ⟨u', .tail u hu', heq⟩

/-- A page that no write is about stays as it is. -/
lemma foldl_stage_other {m : ℕ → Option ℕ} {w : ℕ} : ∀ (us : List (ℕ × ℕ)),
    (∀ u ∈ us, u.1 / pageSize ≠ w) → us.foldl stage m w = m w
  | [], _ => rfl
  | u :: us, h => by
      rw [List.foldl_cons, foldl_stage_other us fun u' hu' => h u' (.tail u hu'), stage,
        Function.update_of_ne (Ne.symm (h u (.head us)))]

/-- **A program that is loaded leaves an address space without a mark.** -/
theorem vmmMapSections_unmarked (h : Unmarked d s) (hg : Generous s) {secs : List MemSection}
    (hflags : ∀ ms ∈ secs, LoadFlags ms) {garbage : UInt32 × UInt32}
    (huser : InUserSpace secs garbage) :
    wp (vmmMapSections d secs garbage) (fun _ s' => Unmarked d s') (fun e _ => Halts e) s := by
  unfold InUserSpace at huser
  rw [vmmMapSections]
  generalize (msGetBoundingAddr secs).getD garbage = bounds at huser ⊢
  obtain ⟨low, high⟩ := bounds
  obtain ⟨hlow, hle⟩ := huser
  rw [wp_ite]
  refine ⟨fun _ => h, fun hne => ?_⟩
  dsimp only
  rw [wp_ite]
  refine ⟨fun _ => h, fun _ => ?_⟩
  obtain ⟨lim, hl⟩ := h.ledger
  refine withFrame_granted hl ⟨h.tables, hg, h.idle⟩ d _ _ _
    (fun s₁ hl₁ hs₁ hsp _ _ _ _ => ⟨⟨lim, hl₁⟩, hs₁.tables, hs₁.idle, ?_, ?_⟩) fun a s₁ hgr => ?_
  · rw [hsp.pageEntry]
    exact h.kernel
  · rw [hsp.pageEntry]
    exact h.plain
  rw [wp_bind]
  refine wp_imp (wp_and (KeepsLedger.pdBeginMapping d s₁) (pdBeginMapping_staged hgr.settled d))
    fun r s₂ hpost => ?_
  obtain ⟨hl₂, hr, hf₂, ht₂, _⟩ := hpost
  subst hr
  rw [wp_ite]
  refine ⟨fun hneg => absurd hneg (lt_irrefl 0), fun _ => ?_⟩
  rw [wp_bind]
  refine wp_imp (wp_and (KeepsLedger.mapPages d secs _ a _ _ s₂)
    (mapPages_staged hne hflags (pageAlignDown_mod _) (StaysAbove.pageAlignDown_le hlow)
      (StaysAbove.pages_le hle) hgr.aligned _ le_rfl hf₂ (by simp [ht₂])))
    fun r s₃ hpost => ?_
  obtain ⟨hl₃, hr, hf₃, ht₃⟩ := hpost
  subst hr
  rw [wp_ite]
  refine ⟨fun hneg => absurd hneg (lt_irrefl 0), fun _ => ?_⟩
  rw [wp_bind]
  refine wp_imp (wp_and (KeepsLedger.pdCommitMapping d s₃) (pdCommitMapping_staged hf₃))
    fun _ s₄ hpost => ?_
  obtain ⟨hl₄, hs₄, _, hpages⟩ := hpost
  have hledger : s₄.ledger = s₁.ledger := hl₄.trans (hl₃.trans hl₂)
  refine ⟨⟨lim, hgr.ledger.of_eq (congrArg Prod.fst hledger) (congrArg (fun l => l.2.1) hledger)⟩,
    hs₄.tables, hs₄.idle, fun {w} h0 hw => ?_, fun {w v} hu hv => ?_⟩
  · -- no task is about a page of the kernel
    rw [hpages (page_of_lt (hw.trans (by decide))), if_pos rfl, foldl_stage_other,
      hgr.space.pageEntry]
    · exact h.kernel h0 hw
    · intro u hmem
      obtain ⟨t, ht, rfl⟩ := List.mem_map.mp hmem
      have h4 := (hf₃.ready t ht).1
      have hlt := (hf₃.slots t ht).1
      rw [pdeIndex_eq hlt] at h4
      rintro rfl
      rw [MappingTask.write] at hw
      simp only [numKernelPde, numEntries, numKernelPte] at *
      omega
  · rw [hpages hu.page, if_pos rfl, hgr.space.pageEntry] at hv
    rcases foldl_stage_cases _ hv with hold | ⟨u, hmem, rfl⟩
    · exact h.plain hu hold
    · obtain ⟨t, ht, rfl⟩ := List.mem_map.mp hmem
      exact ht₃ t ht

/-- The step that loads a program. -/
lemma Unmarked.load (h : Unmarked d s) {secs : List MemSection} {garbage : UInt32 × UInt32}
    {heap : List (Option ℕ)} (hheap : ∀ r ∈ heap, r ≠ none) (hflags : ∀ ms ∈ secs, LoadFlags ms)
    (huser : InUserSpace secs garbage)
    (hstep : vmMachine.step s (.call (.mapSections d secs garbage) heap) s') : Unmarked d s' := by
  obtain ⟨lim, hl⟩ := h.ledger
  have h₁ : Unmarked d { s with heap := heap } :=
    ⟨⟨lim, hl.of_eq rfl rfl⟩, h.tables, h.idle, h.kernel, h.plain⟩
  have hload : wp (VmOp.mapSections d secs garbage).perform (fun _ s' => Unmarked d s')
      (fun e _ => Halts e) { s with heap := heap } := by
    rw [VmOp.perform, wp_bind]
    exact wp_imp (vmmMapSections_unmarked h₁ hheap hflags huser) fun _ _ h' => h'
  have hrun : (VmOp.mapSections d secs garbage).perform { s with heap := heap } = (.ok (), s') :=
    hstep
  exact wp_ok (Q := fun _ s' => Unmarked d s') hload hrun

/-! ### Two runs -/

/-- After boot nothing is marked. -/
lemma KernelInit.unmarked (h : KernelInit s) (d : ℕ) : Unmarked d s := by
  obtain ⟨lim, hg⟩ := h.toVmInit.guarded
  refine ⟨⟨lim, hg.secure.toLedgerInv⟩, hg.tables, hg.idle, fun h0 hw => ?_, fun hu hw => ?_⟩
  · simp [h.direct d _ h0 hw]
  · have hzero : s.dirs d _ = 0 := (h.fresh d).2.2.2 _ hu.1 hu.2
    have hpre := (pageEntry_eq_some.mp hw).1
    rw [hzero] at hpre
    simp at hpre

/-- The step of the machine as a function. -/
def pagesStep (d : ℕ) (t : Tracked) : PagesStep → Option Tracked
  | .newPages base numPages heap =>
      match vmmNewUserPage d base numPages { t.vm with heap := heap } with
      | (.ok r, s') => some ⟨s', if r = 0 then ⟨base, numPages.toNat, s'.lastFrame d⟩ :: t.regions
          else t.regions⟩
      | (.error _, _) => none
  | .removePages base heap =>
      match vmmRemoveUserPage d base { t.vm with heap := heap } with
      | (.ok r, s') => some ⟨s', if r = 0 then t.regions.filter fun R => R.base ≠ base
          else t.regions⟩
      | (.error _, _) => none
  | .scribble memory => some ⟨t.vm.scribble memory, t.regions⟩

lemma pagesStep_sound (t : Tracked) (a : PagesStep) (t' : Tracked) (h : pagesStep d t a = some t') :
    (pagesMachine d).step t a t' := by
  cases a with
  | newPages base numPages heap =>
      rw [pagesStep] at h
      rcases hrun : vmmNewUserPage d base numPages { t.vm with heap := heap } with ⟨e | r, s₁⟩
      · simp [hrun] at h
      · simp only [hrun, Option.some.injEq] at h
        subst h
        exact ⟨r, hrun, rfl⟩
  | removePages base heap =>
      rw [pagesStep] at h
      rcases hrun : vmmRemoveUserPage d base { t.vm with heap := heap } with ⟨e | r, s₁⟩
      · simp [hrun] at h
      · simp only [hrun, Option.some.injEq] at h
        subst h
        exact ⟨r, hrun, rfl⟩
  | scribble memory =>
      rw [pagesStep, Option.some.injEq] at h
      subst h
      exact ⟨rfl, rfl⟩

/-- A program of one page is loaded. -/
def loadStep : VmStep :=
  .call (.mapSections 0 [⟨0x1000000, 0x1000, 7, 7⟩] (0, 0))
    [some 0x9000, some 0x9010, some 0x5000, some 0x9020, some 0x9030]

/-- It gets two pages, and one page right after them; then the two go, and one comes back. -/
def adjacentRun : List PagesStep :=
  [.newPages 0x1002000 2
      [some 0x9040, some 0x9050, some 0x9060, some 0x9070, some 0x9080, some 0x9090],
    .newPages 0x1004000 1 [some 0x90a0, some 0x90b0, some 0x90c0, some 0x90d0],
    .removePages 0x1002000 [some 0x90e0, some 0x90f0, some 0x9100, some 0x9110],
    .newPages 0x1003000 1 [some 0x9040, some 0x9050, some 0x9060, some 0x9070]]

/-- After it there are two regions next to each other, and each can be removed. -/
theorem removesRegions_of_user_adjacentRun :
    ∃ t, t.regions.map Region.base = [0x1003000, 0x1004000] ∧ RemovesRegions 0 t := by
  have hrun : ((vmStep (bootVm 3 8) loadStep).bind fun s =>
      (Machine.replay (pagesStep 0) ⟨s, []⟩ adjacentRun).map fun t =>
        t.regions.map Region.base) = some [0x1003000, 0x1004000] := by decide +kernel
  obtain ⟨s, hload, hrest⟩ := Option.bind_eq_some_iff.mp hrun
  obtain ⟨t, ht, hbases⟩ := Option.map_eq_some_iff.mp hrest
  have hs : Unmarked 0 s := by
    exact (bootVm_kernelInit.unmarked 0).load (by simp) (by decide) (by decide)
      (vmStep_sound _ _ _ hload)
  refine ⟨t, hbases, removesRegions_of_user
    (Machine.reach_of_replay pagesStep_sound adjacentRun ?_ (.init ⟨hs, rfl⟩) ht)⟩
  intro a ha t
  fin_cases ha <;> exact ⟨by simp [PagesStep.HeapSucceeds], by simp [PagesStep.User]⟩

/-- A process asks for page `0`. -/
def zeroRun : List PagesStep :=
  [.newPages 0 1 [some 0x9040, some 0x9050, some 0x9060, some 0x9070]]

/-- **Page `0` is made a region that cannot be removed**: the kernel does not map it, and
`vmm_new_user_page` does not check its base. -/
theorem not_removesRegions_of_zero :
    ∃ t, (pagesMachine 0).Reach (fun _ a => a.HeapSucceeds) t ∧
      t.regions.map Region.base = [0] ∧ ¬ RemovesRegions 0 t := by
  have hrun : ((Machine.replay (pagesStep 0) ⟨bootVm 3 8, []⟩ zeroRun).map fun t =>
      t.regions.map Region.base) = some [0] := by decide +kernel
  obtain ⟨t, ht, hbases⟩ := Option.map_eq_some_iff.mp hrun
  refine ⟨t, ?_, hbases, fun h => ?_⟩
  · refine Machine.reach_of_replay pagesStep_sound zeroRun ?_
      (.init ⟨bootVm_kernelInit.unmarked 0, rfl⟩) ht
    intro a ha t
    fin_cases ha
    simp [PagesStep.HeapSucceeds]
  · obtain ⟨R, hR, hzero⟩ : ∃ R ∈ t.regions, R.base = 0 := by
      have hmem : (0 : UInt32) ∈ t.regions.map Region.base := by simp [hbases]
      exact List.mem_map.mp hmem
    set n := (t.regions.map Region.numPages).sum
    obtain ⟨r, s', hremove, hiff, -, -⟩ := h 0 (List.replicate (2 * n) (some 0)) (by simp)
      fun R hR _ => by
        have hle := List.single_le_sum (by simp) _ (List.mem_map_of_mem (f := Region.numPages) hR)
        rw [List.length_replicate]
        exact Nat.mul_le_mul_left 2 hle
    have hr : r < 0 := (wp_ok (vmmRemoveUserPage_refused (E := fun _ _ => True)
      fun hlow => absurd hlow (by decide)) hremove).1
    exact hr.ne (hiff.mpr ⟨R, hR, hzero⟩)

end ShrekOS
