/-
`vmm_remove_user_page` in a process and in its child, right after `fork`.

* `Spans`: user pages from a marked start to the first marked end;
* `succeeds_iff`: **when a removal succeeds**: the base begins such pages, and the frame
  at its physical page is on record;
* `SurvivesFork`: parent and child agree on a base;
* `survivesFork_iff`: **they agree if and only if** the parent has that frame on record
  exactly when no user page lies below the base;
* `not_survivesFork_of_second`: the second region of a process cannot be removed in its
  child.

The child has one frame for all its pages, so only its lowest page is the start of a frame.
-/
import ShrekOS.Mem.Orderly
import ShrekOS.Mem.Regions

namespace ShrekOS

open Kit Kit.Cmd Vm

variable {lim d dest src : ℕ} {s s' : Vm} {base : UInt32} {last : ℕ}

/-! ### When a removal succeeds -/

/-- From `base` on user pages are mapped, the first one is marked as a start, and `last`
is the first one that is marked as an end. -/
structure Spans (d : ℕ) (s : Vm) (base : UInt32) (last : ℕ) : Prop where
  low : userMemStart ≤ base.toNat
  aligned : base.toNat % pageSize = 0
  start : ∃ v, s.pageEntry d (base.toNat / pageSize) = some v ∧ isUserStart v = true
  bound : last < 2 ^ 20
  ends : EndsAt s d (base.toNat / pageSize) last

/-- The frame at the physical page of `base` is on record. -/
def OnRecord (d : ℕ) (s : Vm) (base : UInt32) : Prop :=
  ∃ v, s.pageEntry d (base.toNat / pageSize) = some v ∧ ∃ m ∈ s.lists d, m.pAddr = removeFlags v

/-- The removal succeeds when the heap has enough answers. -/
def Succeeds (d : ℕ) (base : UInt32) (s : Vm) : Prop :=
  ∃ heap s', (∀ r ∈ heap, r ≠ none) ∧
    vmmRemoveUserPage d base { s with heap := heap } = (.ok 0, s')

/-- The first end is the only one. -/
lemma EndsAt.unique {first last' : ℕ} (h : EndsAt s d first last) (h' : EndsAt s d first last') :
    last = last' := by
  obtain ⟨hle, hends⟩ := h
  obtain ⟨hle', hends'⟩ := h'
  rcases lt_trichotomy last last' with hlt | rfl | hlt
  · obtain ⟨u, hu, hend⟩ := hends last hle le_rfl
    obtain ⟨u', hu', hend'⟩ := hends' last hle hlt.le
    obtain rfl := Option.some.inj (hu.symm.trans hu')
    exact hend'.mp (hend.mpr rfl)
  · rfl
  · obtain ⟨u, hu, hend⟩ := hends last' hle' hlt.le
    obtain ⟨u', hu', hend'⟩ := hends' last' hle' le_rfl
    obtain rfl := Option.some.inj (hu.symm.trans hu')
    exact (hend.mp (hend'.mpr rfl)).symm

/-- A removal that goes through. -/
lemma Spans.removal (h : Spans d s base last) (hl : LedgerInv lim s) (hs : Settled s)
    (hrec : OnRecord d s base) :
    wp (vmmRemoveUserPage d base) (fun r s' => r = 0 ∧ ∀ {e w}, Page w → s'.pageEntry e w =
        if e = d ∧ base.toNat / pageSize ≤ w ∧ w ≤ last then none else s.pageEntry e w)
      (fun _ _ => s.heap.length < 2 * (last + 1 - base.toNat / pageSize)) s := by
  obtain ⟨v, hread, hstart⟩ := h.start
  obtain ⟨v', hread', hm⟩ := hrec
  obtain rfl := Option.some.inj (hread.symm.trans hread')
  exact wp_imp (vmmRemoveUserPage_ends hl hs h.low h.aligned hread hstart h.bound h.ends hm)
    fun _ _ ⟨hr, _, _, hu⟩ => ⟨hr, hu.pages⟩

/-- What a removal that returns `0` went through. -/
lemma vmmRemoveUserPage_spans (hs : Settled s) (d : ℕ) (base : UInt32) :
    wp (vmmRemoveUserPage d base) (fun r _ => r = 0 → (∃ last, Spans d s base last) ∧
      OnRecord d s base) (fun _ _ => True) s := by
  rw [vmmRemoveUserPage, wp_ite]
  refine ⟨fun _ hr => absurd hr (by decide), fun hbase => ?_⟩
  rw [not_or, not_lt, not_not, isPageAligned, decide_eq_true_eq] at hbase
  obtain ⟨hlow, hal⟩ := hbase
  rw [wp_bind]
  refine pdGetMapping_read base.toNat_lt (fun v hread => ?_) fun e _ hr => absurd hr (by decide)
  dsimp only
  rw [wp_ite]
  refine ⟨fun _ hr => absurd hr (by decide), fun hstart => ?_⟩
  rw [not_not] at hstart
  rw [wp_bind]
  have hkeep : wp (pdBeginMapping d) (fun _ s' => s'.lists = s.lists) (fun _ _ => True) s :=
    wp_mono (KeepsLedger.pdBeginMapping d s) (fun _ _ hl => congrArg (fun l => l.2.1) hl)
      fun _ _ _ => trivial
  refine wp_imp (wp_and (pdBeginMapping_fill hs d) hkeep) fun r s₁ hpost => ?_
  obtain ⟨⟨_, hf₁, ht₁⟩, hl₁⟩ := hpost
  rw [wp_bind]
  have hloop := KeepsLedger.removePages d (2 ^ 20 + 1) base 0 hal (by decide)
    (.inr (by simp only [userMemStart, pageSize] at *; omega)) s₁
  refine wp_mono (wp_both hloop (removePages_fill (2 ^ 20 + 1) 0 hf₁ hal (.inr hlow)
    (by simp [ht₁]))) (fun b s₂ hpost => ?_) fun _ _ _ => trivial
  obtain ⟨hl₂, hf₂, _, _, hlast⟩ := hpost
  have hlists : s₂.lists = s.lists := (congrArg (fun l => l.2.1) hl₂).trans hl₁
  rw [wp_ite]
  constructor
  · intro _
    rw [wp_bind]
    exact wp_any _ (fun _ _ hr => absurd hr (by decide)) fun _ _ => trivial
  · intro hb
    obtain ⟨-, last, hends, habout⟩ := hlast (by simpa using hb)
    rw [wp_bind]
    by_cases hrec : ∃ m ∈ s.lists d, m.pAddr = removeFlags v
    · refine wp_any _ (fun r s₃ => ?_) fun _ _ => trivial
      have hspans : Spans d s base last := by
        refine ⟨hlow, hal, ⟨v, hread, hstart⟩, ?_, hends⟩
        -- the last page has a task, and tasks have addresses of 32 bits
        obtain ⟨t, ht, hab⟩ := habout last hends.1 le_rfl
        have hlt := (hf₂.slots t ht).1
        rw [MappingTask.About] at hab
        simp only [pageSize] at hab
        omega
      exact wp_any _ (fun _ _ _ => ⟨⟨last, hspans⟩, v, hread, hrec⟩) fun _ _ => trivial
    · refine wp_imp (pdDeallocFrame_absent (hlists ▸ hrec)) fun r s₃ hpost => ?_
      obtain ⟨hr, _⟩ := hpost
      subst hr
      dsimp only
      rw [wp_bind]
      exact wp_any _ (fun _ _ hr => absurd hr (by decide)) fun _ _ => trivial

/-- **When a removal succeeds.** -/
theorem succeeds_iff (hl : LedgerInv lim s) (hs : Settled s) :
    Succeeds d base s ↔ (∃ last, Spans d s base last) ∧ OnRecord d s base := by
  constructor
  · rintro ⟨heap, s', hheap, hrun⟩
    have hs₁ : Settled { s with heap := heap } := ⟨hs.tables, hheap, hs.idle⟩
    obtain ⟨⟨last, h⟩, hrec⟩ := wp_ok (vmmRemoveUserPage_spans hs₁ d base) hrun rfl
    exact ⟨⟨last, h.low, h.aligned, h.start, h.bound, h.ends⟩, hrec⟩
  · rintro ⟨⟨last, h⟩, hrec⟩
    set heap := List.replicate (2 * (last + 1 - base.toNat / pageSize)) (some 0) with hheap
    have hg : ∀ r ∈ heap, r ≠ none := by simp [hheap]
    have h₁ : Spans d { s with heap := heap } base last :=
      ⟨h.low, h.aligned, h.start, h.bound, h.ends⟩
    have hrun := h₁.removal (hl.of_eq rfl rfl) ⟨hs.tables, hg, hs.idle⟩ hrec
    obtain ⟨r, s', hrun, rfl, -⟩ := wp_returns (wp_mono hrun (fun _ _ hq => hq)
      fun _ _ hfault => by simp [hheap] at hfault)
    exact ⟨heap, s', hg, hrun⟩

/-! ### Parent and child -/

lemma testBit_extractFlags (v : ℕ) {j : ℕ} (hj : j < 12) :
    (extractFlags v).testBit j = v.testBit j := by
  rw [extractFlags, Nat.testBit_mod_two_pow]
  simp [hj]

/-- The marks of an entry are copied. -/
lemma testBit_copiedPte {a : ℕ} (ha : a % pageSize = 0) (k v : ℕ) {j : ℕ} (hj : j < 12) :
    (copiedPte a k v).testBit j = v.testBit j := by
  rw [copiedPte, testBit_addFlags (nthPage_mod ha k) hj, testBit_extractFlags v hj]

/-- The first page of a frame is the only one at its address. -/
lemma nthPage_eq_iff {a k : ℕ} (ha : a < 2 ^ 32) (hk : k < 2 ^ 20) : nthPage a k = a ↔ k = 0 := by
  simp only [nthPage, pageSize]
  omega

/-- No user page of the directory below that of `base` is mapped. -/
def Lowest (d : ℕ) (s : Vm) (base : UInt32) : Prop :=
  ∀ w < base.toNat / pageSize, s.userMap d w = none

lemma rank_eq_zero_iff : rank s d (base.toNat / pageSize) = 0 ↔ Lowest d s base := by
  rw [rank, Nat.count_iff_forall_not]
  refine forall_congr' fun w => forall_congr' fun _ => ?_
  rw [Mapped, Option.isSome_iff_ne_none, not_not]

namespace Forked

variable {a : ℕ}

/-- The pages from `base` on are marked alike in the child. -/
lemma spans (h : Forked lim dest src a s s') : Spans dest s' base last ↔ Spans src s base last := by
  have huser : userMemStart ≤ base.toNat → last < 2 ^ 20 → ∀ {w}, base.toNat / pageSize ≤ w →
      w ≤ last → UserPage w := by
    intro hlow hlast w h1 h2
    simp only [UserPage, userMemStart, pageSize, numEntries, numKernelPde] at *
    omega
  constructor
  · rintro ⟨hlow, hal, ⟨v, hread, hstart⟩, hlast, hle, hends⟩
    refine ⟨hlow, hal, ?_, hlast, hle, fun w h1 h2 => ?_⟩
    · rw [h.copy (huser hlow hlast le_rfl hle), Option.map_eq_some_iff] at hread
      obtain ⟨u, hu, rfl⟩ := hread
      exact ⟨u, hu, by rwa [isUserStart, testBit_copiedPte h.aligned _ _ (by decide)] at hstart⟩
    · obtain ⟨u', hu', hend⟩ := hends w h1 h2
      rw [h.copy (huser hlow hlast h1 h2), Option.map_eq_some_iff] at hu'
      obtain ⟨u, hu, rfl⟩ := hu'
      exact ⟨u, hu, by rwa [isUserEnd, testBit_copiedPte h.aligned _ _ (by decide)] at hend⟩
  · rintro ⟨hlow, hal, ⟨v, hread, hstart⟩, hlast, hle, hends⟩
    refine ⟨hlow, hal, ?_, hlast, hle, fun w h1 h2 => ?_⟩
    · refine ⟨_, by rw [h.copy (huser hlow hlast le_rfl hle), hread]; rfl, ?_⟩
      rwa [isUserStart, testBit_copiedPte h.aligned _ _ (by decide)]
    · obtain ⟨u, hu, hend⟩ := hends w h1 h2
      refine ⟨_, by rw [h.copy (huser hlow hlast h1 h2), hu]; rfl, ?_⟩
      rwa [isUserEnd, testBit_copiedPte h.aligned _ _ (by decide)]

/-- The pages of the parent are marked as before. -/
lemma spans_src (h : Forked lim dest src a s s') (hne : src ≠ dest) :
    Spans src s' base last ↔ Spans src s base last := by
  have hpage : ∀ {w}, w < 2 ^ 20 → s'.pageEntry src w = s.pageEntry src w := fun hw =>
    h.others hne (page_of_lt hw)
  have hfirst : base.toNat / pageSize < 2 ^ 20 := by
    have hlt := base.toNat_lt
    simp only [pageSize]
    omega
  constructor
  · rintro ⟨hlow, hal, hstart, hlast, hle, hends⟩
    refine ⟨hlow, hal, hpage hfirst ▸ hstart, hlast, hle, fun w h1 h2 => ?_⟩
    rw [← hpage (h2.trans_lt hlast)]
    exact hends w h1 h2
  · rintro ⟨hlow, hal, hstart, hlast, hle, hends⟩
    refine ⟨hlow, hal, (hpage hfirst).symm ▸ hstart, hlast, hle, fun w h1 h2 => ?_⟩
    rw [hpage (h2.trans_lt hlast)]
    exact hends w h1 h2

/-- The one frame of the child is found at its lowest page alone. -/
lemma onRecord (h : Forked lim dest src a s s') (hfresh : s.lists dest = [])
    (hspans : Spans src s base last) : OnRecord dest s' base ↔ Lowest src s base := by
  have hbound := hspans.bound
  have hle := hspans.ends.1
  have hu : UserPage (base.toNat / pageSize) := by
    have hlow := hspans.low
    simp only [UserPage, userMemStart, pageSize, numEntries, numKernelPde] at *
    omega
  have ha : a < 2 ^ 32 := by
    have hmem : (⟨a, s.counts src⟩ : FrameMetadata) ∈ s'.lists dest := by
      rw [h.lists, Function.update_self]
      exact .head _
    obtain ⟨k, -, hpos, -⟩ := h.ledger.balanced.recorded hmem
    have hle := h.le
    have hmul : pageSize * 1 ≤ pageSize * s.counts src := Nat.mul_le_mul_left _ hpos
    have hpage := FrameManager.pageSize_pos
    omega
  have hrank : rank s src (base.toNat / pageSize) < 2 ^ 20 := (Nat.count_le _).trans_lt (by omega)
  obtain ⟨v, hread, -⟩ := hspans.start
  rw [← rank_eq_zero_iff, ← nthPage_eq_iff ha hrank, OnRecord, h.copy hu, hread, h.lists,
    Function.update_self, hfresh]
  simp only [Option.map_some, Option.some.injEq, exists_eq_left', List.mem_singleton,
    exists_eq_left, copiedPte, removeFlags_addFlags (nthPage_mod h.aligned _) (extractFlags_lt v)]
  exact eq_comm

/-- The parent has the frames on record that it had. -/
lemma onRecord_src (h : Forked lim dest src a s s') (hne : src ≠ dest) :
    OnRecord src s' base ↔ OnRecord src s base := by
  have hfirst : base.toNat / pageSize < 2 ^ 20 := by
    have hlt := base.toNat_lt
    simp only [pageSize]
    omega
  rw [OnRecord, OnRecord, h.others hne (page_of_lt hfirst), h.lists, Function.update_of_ne hne]

end Forked

/-- The removal at `base` succeeds in `dest` if and only if it does in `src`, and then it
unmaps the same pages. -/
structure SurvivesFork (dest src : ℕ) (s : Vm) (base : UInt32) : Prop where
  succeeds : Succeeds dest base s ↔ Succeeds src base s
  pages : ∀ {heap heap' c p}, (∀ r ∈ heap, r ≠ none) → (∀ r ∈ heap', r ≠ none) →
    vmmRemoveUserPage dest base { s with heap := heap } = (.ok 0, c) →
    vmmRemoveUserPage src base { s with heap := heap' } = (.ok 0, p) →
    ∀ {w}, Page w → ((s.pageEntry dest w ≠ none ∧ c.pageEntry dest w = none) ↔
      (s.pageEntry src w ≠ none ∧ p.pageEntry src w = none))

/-- A removal that returned `0` unmapped the pages of the span. -/
lemma unmapped_iff (hl : LedgerInv lim s) (hs : Settled s) {heap : List (Option ℕ)}
    (hheap : ∀ r ∈ heap, r ≠ none)
    (hrun : vmmRemoveUserPage d base { s with heap := heap } = (.ok 0, s'))
    (hspans : Spans d s base last) {w : ℕ} (hw : Page w) :
    (s.pageEntry d w ≠ none ∧ s'.pageEntry d w = none) ↔
      base.toNat / pageSize ≤ w ∧ w ≤ last := by
  have hrec : OnRecord d s base := ((succeeds_iff hl hs).mp ⟨heap, s', hheap, hrun⟩).2
  have h₁ : Spans d { s with heap := heap } base last :=
    ⟨hspans.low, hspans.aligned, hspans.start, hspans.bound, hspans.ends⟩
  have hpages := (wp_ok (h₁.removal (hl.of_eq rfl rfl) ⟨hs.tables, hheap, hs.idle⟩ hrec) hrun).2
    (e := d) hw
  have hold : Vm.pageEntry { s with heap := heap } = s.pageEntry := rfl
  rw [hpages, hold]
  constructor
  · rintro ⟨hsome, hnone⟩
    split_ifs at hnone with hin
    · exact hin.2
    · exact absurd hnone hsome
  · intro hin
    obtain ⟨u, hu, -⟩ := hspans.ends.2 w hin.1 hin.2
    exact ⟨by simp [hu], if_pos ⟨rfl, hin⟩⟩

/-- **Parent and child agree on a base** if and only if it is not the start of user pages,
or the parent has its frame on record exactly when no user page lies below. -/
lemma Forked.survives_iff {a : ℕ} (hf : Forked lim dest src a s s') (hne : src ≠ dest)
    (hfresh : s.lists dest = []) : SurvivesFork dest src s' base ↔
      ∀ last, Spans src s base last → (Lowest src s base ↔ OnRecord src s base) := by
  have hchild : Succeeds dest base s' ↔ (∃ last, Spans src s base last) ∧ Lowest src s base := by
    rw [succeeds_iff hf.ledger hf.settled]
    constructor
    · rintro ⟨⟨last, h⟩, hrec⟩
      have h' := hf.spans.mp h
      exact ⟨⟨last, h'⟩, (hf.onRecord hfresh h').mp hrec⟩
    · rintro ⟨⟨last, h⟩, hlow⟩
      exact ⟨⟨last, hf.spans.mpr h⟩, (hf.onRecord hfresh h).mpr hlow⟩
  have hparent : Succeeds src base s' ↔ (∃ last, Spans src s base last) ∧ OnRecord src s base := by
    rw [succeeds_iff hf.ledger hf.settled, hf.onRecord_src hne]
    exact and_congr_left' (exists_congr fun _ => hf.spans_src hne)
  constructor
  · rintro ⟨hiff, -⟩ last h
    rw [hchild, hparent] at hiff
    exact ⟨fun hlow => (hiff.mp ⟨⟨last, h⟩, hlow⟩).2, fun hrec => (hiff.mpr ⟨⟨last, h⟩, hrec⟩).2⟩
  · intro hagree
    refine ⟨?_, fun {heap heap' c p} hheap hheap' hc hp {w} hw => ?_⟩
    · rw [hchild, hparent]
      exact ⟨fun ⟨⟨last, h⟩, hlow⟩ => ⟨⟨last, h⟩, (hagree last h).mp hlow⟩,
        fun ⟨⟨last, h⟩, hrec⟩ => ⟨⟨last, h⟩, (hagree last h).mpr hrec⟩⟩
    · obtain ⟨⟨last, h⟩, -⟩ := hchild.mp ⟨_, _, hheap, hc⟩
      rw [unmapped_iff hf.ledger hf.settled hheap hc (hf.spans.mpr h) hw,
        unmapped_iff hf.ledger hf.settled hheap' hp ((hf.spans_src hne).mpr h) hw]

/-- A copy that returned `0`. -/
lemma Orderly.forked (h : Orderly lim s) {heap : List (Option ℕ)} (hheap : ∀ r ∈ heap, r ≠ none)
    (hempty : Empty dest s) {garbage : ℕ → ℕ}
    (hrun : vmmDeepCopy dest src garbage { s with heap := heap } = (.ok 0, s')) :
    ∃ a, Forked lim dest src a { s with heap := heap } s' := by
  obtain ⟨hneg, -⟩ | ⟨-, hf⟩ := wp_ok (vmmDeepCopy_forked (h.ledger heap) (h.settled hheap) dest src
    hempty garbage) hrun
  · exact absurd hneg (lt_irrefl 0)
  · exact hf

/-- **When a removal survives `fork`**: in every run in which the heap answers, for every
process and base. -/
theorem survivesFork_iff (h : vmMachine.Reach (fun _ a => a.Sound) s) (hne : src ≠ dest)
    (hempty : Empty dest s) (hfresh : s.lists dest = []) {heap : List (Option ℕ)}
    (hheap : ∀ r ∈ heap, r ≠ none) {garbage : ℕ → ℕ}
    (hfork : vmmDeepCopy dest src garbage { s with heap := heap } = (.ok 0, s')) :
    SurvivesFork dest src s' base ↔
      ∀ last, Spans src s base last → (Lowest src s base ↔ OnRecord src s base) := by
  obtain ⟨lim, ho⟩ := orderly_of_sound h
  obtain ⟨a, hf⟩ := ho.forked hheap hempty hfork
  rw [hf.survives_iff hne hfresh]
  exact forall_congr' fun last => imp_congr
    ⟨fun h => ⟨h.low, h.aligned, h.start, h.bound, h.ends⟩,
      fun h => ⟨h.low, h.aligned, h.start, h.bound, h.ends⟩⟩ Iff.rfl

/-- In a process that is not forked the condition is about the bases of the regions: each
has its frame on record, so it has to be the lowest user page. -/
theorem Bracketed.survives_iff {regions : List Region} (h : Bracketed src regions s) :
    (∀ last, Spans src s base last → (Lowest src s base ↔ OnRecord src s base)) ↔
      ∀ R ∈ regions, R.base = base → Lowest src s base := by
  constructor
  · rintro hagree R hR rfl
    have hholds := h.holds R hR
    obtain ⟨v, hread, hstart, hframe⟩ := hholds.start
    have hpos := hholds.pos
    have hspans : Spans src s R.base (R.first + R.numPages - 1) :=
      ⟨hholds.low, hholds.aligned, ⟨v, hread, hstart⟩, (hholds.page ⟨by omega, by omega⟩).2,
        hholds.ends⟩
    exact (hagree _ hspans).mpr ⟨v, hread, _, hholds.recorded, hframe.symm⟩
  · intro hlow last hspans
    obtain ⟨v, hread, hstart⟩ := hspans.start
    have hu : UserPage (base.toNat / pageSize) := by
      have hlt := base.toNat_lt
      have hbase := hspans.low
      simp only [UserPage, userMemStart, pageSize, numEntries, numKernelPde] at *
      omega
    obtain ⟨R, hR, hfirst⟩ := h.plain hu hread hstart
    have hholds := h.holds R hR
    have hbase : R.base = base := by
      refine UInt32.toNat_inj.mp ?_
      have hal := hholds.aligned
      have hal' := hspans.aligned
      simp only [Region.first, pageSize] at *
      omega
    subst hbase
    obtain ⟨v', hread', -, hframe⟩ := hholds.start
    exact iff_of_true (hlow R hR rfl) ⟨v', hread', _, hholds.recorded, hframe.symm⟩

/-! ### A fork -/

/-- A process gets two separate pages, and is about to be forked. -/
def twoRegions : List VmStep := forkRun.take 2

/-- The answers of the heap during its `fork`. -/
def forkHeap : List (Option ℕ) :=
  [some 0x9080, some 0x9090, some 0x6000, some 0x90a0, some 0x90b0]

/-- What the two processes have at its `fork`. -/
lemma twoRegions_forked : ∃ s s', vmMachine.Reach (fun _ a => a.Sound) s ∧ Empty 1 s ∧
    s.lists 1 = [] ∧ vmmDeepCopy 1 0 id { s with heap := forkHeap } = (.ok 0, s') ∧
    s.lists 0 = [⟨0x1001000, 1⟩, ⟨0x1000000, 1⟩] ∧
    s.pageEntry 0 0x1000 = some 0x1000607 ∧ s.pageEntry 0 0x1002 = some 0x1001607 := by
  have hrun : ((Machine.replay vmStep (bootVm 3 8) twoRegions).map fun s =>
      ((vmmDeepCopy 1 0 id { s with heap := forkHeap }).1.toOption,
        s.lists 1, s.lists 0, s.pageEntry 0 0x1000, s.pageEntry 0 0x1002)) =
      some (some 0, [], [⟨0x1001000, 1⟩, ⟨0x1000000, 1⟩], some 0x1000607, some 0x1001607) := by
    decide +kernel
  have hslots : ((Machine.replay vmStep (bootVm 3 8) twoRegions).map fun s =>
      (List.range numEntries).filter fun j => numKernelPde ≤ j ∧ s.dirs 1 j ≠ 0) = some [] := by
    decide +kernel
  obtain ⟨s, hs, heq⟩ := Option.map_eq_some_iff.mp hrun
  rw [hs, Option.map_some, Option.some.injEq, List.filter_eq_nil_iff] at hslots
  simp only [Prod.mk.injEq] at heq
  obtain ⟨hret, hfresh, hlist, hfirst, hsecond⟩ := heq
  obtain ⟨s', hcopy⟩ := run_of_toOption hret
  refine ⟨s, s', ?_, fun j hj hlt => ?_, hfresh, hcopy, hlist, hfirst, hsecond⟩
  · refine Machine.reach_of_replay vmStep_sound _ ?_ (.init ?_) hs
    · intro a ha s
      fin_cases ha <;> simp [VmStep.Sound, VmStep.HeapSucceeds]
    · exact bootVm_init (by decide) (by decide) (by decide) (by decide)
  · by_contra hne
    exact hslots j (List.mem_range.mpr hlt) (by simpa using ⟨hj, hne⟩)

/-- After the fork the first region can be removed in both processes, or in none. -/
theorem survivesFork_iff_first : ∃ s s' : Vm, s.pageEntry 0 0x1002 = some 0x1001607 ∧
    vmmDeepCopy 1 0 id { s with heap := forkHeap } = (.ok 0, s') ∧
    SurvivesFork 1 0 s' 0x1000000 := by
  obtain ⟨s, s', hs, hempty, hfresh, hfork, hlist, hfirst, hsecond⟩ := twoRegions_forked
  refine ⟨s, s', hsecond, hfork,
    (survivesFork_iff hs (by decide) hempty hfresh (by decide) hfork).mpr fun last _ => ?_⟩
  refine iff_of_true (fun w hw => ?_) ?_
  · have hw' : w < 0x1000 := hw
    exact if_neg fun hu => by simp only [UserPage, numEntries, numKernelPde] at hu; omega
  · exact ⟨_, hfirst, ⟨0x1000000, 1⟩, by simp [hlist], by decide⟩

/-- **The second region does not survive the fork**: the parent can remove it, and its child
cannot. -/
theorem not_survivesFork_of_second : ∃ s s', vmMachine.Reach (fun _ a => a.Sound) s ∧
    Empty 1 s ∧ s.lists 1 = [] ∧ vmmDeepCopy 1 0 id { s with heap := forkHeap } = (.ok 0, s') ∧
    ¬ SurvivesFork 1 0 s' 0x1002000 := by
  obtain ⟨s, s', hs, hempty, hfresh, hfork, hlist, hfirst, hsecond⟩ := twoRegions_forked
  refine ⟨s, s', hs, hempty, hfresh, hfork, fun h => ?_⟩
  obtain ⟨lim, ho⟩ := orderly_of_sound hs
  obtain ⟨a, hf⟩ := ho.forked (by decide) hempty hfork
  have hspans : Spans 0 { s with heap := forkHeap } 0x1002000 0x1002 := by
    refine ⟨by decide, by decide, ⟨_, hsecond, by decide⟩, by decide, le_rfl, fun w h1 h2 => ?_⟩
    obtain rfl : w = 0x1002 := le_antisymm h2 h1
    exact ⟨_, hsecond, by decide⟩
  have hmem : (⟨0x1001000, 1⟩ : FrameMetadata) ∈ s.lists 0 := by simp [hlist]
  have hrec : OnRecord 0 { s with heap := forkHeap } 0x1002000 :=
    ⟨_, hsecond, _, hmem, by decide⟩
  have hlow := ((hf.survives_iff (by decide) hfresh).mp h _ hspans).mpr hrec
  -- the first region lies below
  have hmap : s.userMap 0 0x1000 = some 0x1000000 :=
    userMap_eq_some.mpr ⟨by decide, _, hfirst, by decide⟩
  exact absurd ((hlow 0x1000 (by decide)).symm.trans hmap) (by simp)

end ShrekOS
