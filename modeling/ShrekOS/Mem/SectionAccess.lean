/-
What a process may do with the pages that `vmm_map_sections` maps.

* `AccessFlags`: sections with the flags that programs are loaded with;
* `Writable`: the page is found in a section that may be written;
* `access_of_load`: what `pd_get_permissions` reports for a page, in terms of its
  directory entry and its section;
* `accessTakesEffect_iff`: **when the permissions of the sections take effect**: in every
  range of 4 MB with a page that may be written, the first page that is mapped there belongs
  to a section.

A page of no section gets the flags of a page that may only be read for its directory entry
too, and that entry is shared by all pages of the range.
-/
import ShrekOS.Handlers.UserPointers
import ShrekOS.Mem.SectionWords

namespace ShrekOS

open Kit Kit.Cmd Vm

variable {lim d : ℕ} {s s' : Vm} {secs : List MemSection}

/-- `USER_RO`: present, read only, user mode. -/
def userRo : ℕ := 5

/-- The flags of the sections are those that programs are loaded with: page tables may be
written, and pages may be written or only read. -/
def AccessFlags (secs : List MemSection) : Prop :=
  ∀ ms ∈ secs, ms.pdeF.toNat = userWr ∧ (ms.pteF.toNat = userWr ∨ ms.pteF.toNat = userRo)

instance (secs : List MemSection) : Decidable (AccessFlags secs) := List.decidableBAll _ secs

/-- Such flags are flags of the header. -/
lemma AccessFlags.headerFlags (h : AccessFlags secs) : HeaderFlags secs := by
  refine ⟨fun ms hms => ?_, fun ms hms => ?_⟩
  · rw [(h ms hms).1]
    decide
  · rcases (h ms hms).2 with hf | hf
    · rw [hf]
      decide
    · rw [hf]
      decide

/-- The section found for the page may be written. -/
def Writable (secs : List MemSection) (w : ℕ) : Prop :=
  ∃ ms, sectionOf secs w = some ms ∧ ms.pteF.toNat = userWr

/-- The bits of the flags: user mode, and write access. -/
lemma flag_bits : userWr.testBit 2 = true ∧ userWr.testBit 1 = true ∧ userRo.testBit 2 = true ∧
    userRo.testBit 1 = false ∧ flagDefault = userRo ∧ userRo ≠ userWr := by decide

/-- The page flags of a page: in user mode, and writable as its section says. -/
lemma AccessFlags.pageFlags (h : AccessFlags secs) (hne : secs ≠ []) (w : ℕ) :
    (sectionFlags secs w).1.testBit 2 = true ∧
      ((sectionFlags secs w).1.testBit 1 = true ↔ Writable secs w) := by
  obtain ⟨hw2, hw1, hr2, hr1, hdef, hneq⟩ := flag_bits
  unfold sectionFlags Writable
  cases hms : sectionOf secs w with
  | none => simp [foundFlags, hdef, hr2, hr1]
  | some ms =>
      rcases (h ms (mem_of_sectionOf hne hms)).2 with hf | hf
      · simp [foundFlags, hf, hw2, hw1]
      · simp [foundFlags, hf, hr2, hr1, hneq]

/-- The directory flags of a page: in user mode, and writable if it is in a section. -/
lemma AccessFlags.tableFlags (h : AccessFlags secs) (hne : secs ≠ []) (w : ℕ) :
    (sectionFlags secs w).2.testBit 2 = true ∧
      ((sectionFlags secs w).2.testBit 1 = true ↔ sectionOf secs w ≠ none) := by
  obtain ⟨hw2, hw1, hr2, hr1, hdef, -⟩ := flag_bits
  unfold sectionFlags
  cases hms : sectionOf secs w with
  | none => simp [foundFlags, hdef, hr2, hr1]
  | some ms => simp [foundFlags, (h ms (mem_of_sectionOf hne hms)).1, hw2, hw1]

/-- What `pd_get_permissions` reports for a mapped page: user mode when both flags say so, and
then write access when both say so. -/
lemma pdGetPermissions_eq {v u : ℕ} (hv : v < 2 ^ 32)
    (h : s.pageEntry d (v / pageSize) = some u) :
    ∃ p acc, (pdGetPermissions d v s).1 = .ok (.ok (p, acc)) ∧
      (p = privUser ↔ (s.dirs d (v / pageSize / numEntries)).testBit 2 = true ∧
        u.testBit 2 = true) ∧
      (p = privUser → (acc = accRw ↔ (s.dirs d (v / pageSize / numEntries)).testBit 1 = true ∧
        u.testBit 1 = true)) := by
  obtain ⟨hpde, hpte, hread⟩ := pageEntry_eq_some.mp h
  rw [← pdeIndex_eq hv] at hpde hread ⊢
  rw [← pteIndex_eq] at hread
  have hrun : wp (pdGetPermissions d v) (fun r _ => ∃ p acc, r = .ok (p, acc) ∧
      (p = privUser ↔ (s.dirs d (pdeIndex v)).testBit 2 = true ∧ u.testBit 2 = true) ∧
      (p = privUser → (acc = accRw ↔ (s.dirs d (pdeIndex v)).testBit 1 = true ∧
        u.testBit 1 = true))) (fun _ _ => False) s := by
    rw [pdGetPermissions, wp_bind, wp_entry, wp_ite]
    refine ⟨fun hc => absurd hpde hc, fun _ => ?_⟩
    rw [wp_bind, wp_pte, wp_ite]
    have hread' : s.pt (removeFlags ((s.pds d).directory (pdeIndex v))) (pteIndex v) = u := hread
    rw [hread']
    refine ⟨fun hc => absurd hpte hc, fun _ => ?_⟩
    rw [wp_pure]
    refine ⟨_, _, rfl, ?_, ?_⟩
    · simp only [entryPermissions, nthBit, privUser, Vm.dirs]
      split_ifs <;> simp_all
    · simp only [entryPermissions, nthBit, privUser, accRw, Vm.dirs]
      split_ifs <;> simp_all
  obtain ⟨r, s', hr, p, acc, rfl, h1, h2⟩ := wp_returns hrun
  exact ⟨p, acc, by rw [hr], h1, h2⟩

/-- The pages of a load: `pd_get_permissions` reports user mode for all, and write access
exactly for those whose section may be written. -/
def AccessTakesEffect (d : ℕ) (secs : List MemSection) (low high : UInt32) (s : Vm) : Prop :=
  ∀ w, firstPage low ≤ w → w < firstPage low + pageCount low high →
    ∃ acc, (pdGetPermissions d (pageSize * w) s).1 = .ok (.ok (privUser, acc)) ∧
      (acc = accRw ↔ Writable secs w)

/-- The directory entries do not stand in the way: an entry that is there before the load
grants what is asked for, and where there is none, the first page that is mapped belongs to a
section if one of the pages may be written. -/
def TablesGrant (d : ℕ) (secs : List MemSection) (low high : UInt32) (s : Vm) : Prop :=
  ∀ w, firstPage low ≤ w → w < firstPage low + pageCount low high →
    (entryPresent (s.dirs d (w / numEntries)) = true →
      (s.dirs d (w / numEntries)).testBit 2 = true ∧
        (Writable secs w → (s.dirs d (w / numEntries)).testBit 1 = true)) ∧
    (entryPresent (s.dirs d (w / numEntries)) = false → Writable secs w →
      sectionOf secs (max (firstPage low) (w / numEntries * numEntries)) ≠ none)

/-- The access of one page: what its directory entry must grant. -/
lemma access_of_load {first n a w : ℕ} (hl : LoadedAt d first n a secs s s')
    (hflags : AccessFlags secs) (hne : secs ≠ []) (hend : pageSize * (first + n) ≤ 2 ^ 32)
    (h1 : first ≤ w) (h2 : w < first + n) :
    (∃ acc, (pdGetPermissions d (pageSize * w) s').1 = .ok (.ok (privUser, acc)) ∧
      (acc = accRw ↔ Writable secs w)) ↔
    (s'.dirs d (w / numEntries)).testBit 2 = true ∧
      (Writable secs w → (s'.dirs d (w / numEntries)).testBit 1 = true) := by
  have hdiv : pageSize * w / pageSize = w := Nat.mul_div_cancel_left _ FrameManager.pageSize_pos
  have hv : pageSize * w < 2 ^ 32 :=
    (Nat.mul_lt_mul_of_pos_left h2 FrameManager.pageSize_pos).trans_le hend
  have hw : Page w := page_of_lt (by simp only [pageSize] at hv; omega)
  have hal : (a + pageSize * (w - first)) % pageSize = 0 := by
    rw [Nat.add_mul_mod_self_left, hl.aligned]
  have hentry : s'.pageEntry d (pageSize * w / pageSize) =
      some (sectionPte secs first a (w - first)) := by
    rw [hdiv, hl.pages hw, if_pos ⟨h1, h2⟩,
      hflags.headerFlags.present_sectionPte hne hl.aligned]
  obtain ⟨p, acc, hrun, hp, hacc⟩ := pdGetPermissions_eq hv hentry
  obtain ⟨huser, hwr⟩ := hflags.pageFlags hne w
  have hpte : ∀ j < 12, (sectionPte secs first a (w - first)).testBit j =
      (sectionFlags secs w).1.testBit j := by
    intro j hj
    rw [sectionPte, testBit_addFlags hal hj, Nat.add_sub_cancel' h1]
  rw [hdiv, hpte 2 (by decide), huser] at hp
  rw [hdiv, hpte 1 (by decide), hwr] at hacc
  simp only [and_true] at hp
  rw [hrun]
  constructor
  · rintro ⟨acc', heq, hiff⟩
    simp only [Except.ok.injEq, Prod.mk.injEq] at heq
    obtain ⟨rfl, rfl⟩ := heq
    exact ⟨hp.mp rfl, fun hwrit => ((hacc rfl).mp (hiff.mpr hwrit)).1⟩
  · rintro ⟨hbit2, hbit1⟩
    obtain rfl := hp.mpr hbit2
    exact ⟨acc, rfl, (hacc rfl).trans ⟨fun h => h.2, fun h => ⟨hbit1 h, h⟩⟩⟩

/-- **When the permissions of the sections take effect** after a load that succeeds. -/
theorem accessTakesEffect_iff (ho : Orderly lim s) (hk : KernelApart d s)
    (hflags : AccessFlags secs) {garbage : UInt32 × UInt32} (hord : InOrder secs garbage)
    (hrun : vmmMapSections d secs garbage s = (.ok 0, s')) :
    AccessTakesEffect d secs (loadBounds secs garbage).1 (loadBounds secs garbage).2 s' ↔
      TablesGrant d secs (loadBounds secs garbage).1 (loadBounds secs garbage).2 s := by
  have hend := hord.le
  obtain ⟨hne, hload⟩ := vmmMapSections_loadedAt ho hk hflags.headerFlags.1 hord hrun
  unfold AccessTakesEffect TablesGrant
  generalize firstPage (loadBounds secs garbage).1 = first at hend hload ⊢
  generalize pageCount (loadBounds secs garbage).1 (loadBounds secs garbage).2 = n
    at hend hload ⊢
  rcases hload with ⟨rfl, -⟩ | ⟨a, hl⟩
  · exact ⟨fun _ w h1 h2 => absurd h2 (not_lt.mpr h1), fun _ w h1 h2 => absurd h2 (not_lt.mpr h1)⟩
  -- page by page: what its directory entry must grant, and what it has become
  refine forall_congr' fun w => forall_congr' fun h1 => forall_congr' fun h2 => ?_
  rw [access_of_load hl hflags hne hend h1 h2]
  rcases hl.tables w h1 h2 with ⟨hpre, heq⟩ | ⟨habs, p, hp, heq⟩
  · rw [heq, hpre]
    simp
  · obtain ⟨hbit2, hbit1⟩ := hflags.tableFlags hne (max first (w / numEntries * numEntries))
    rw [heq, habs, testBit_addFlags hp (by decide), testBit_addFlags hp (by decide), hbit1, hbit2]
    simp

/-! ### A gap at the start of a range of 4 MB -/

/-- A section that may be read, on the last page of the first 4 MB of user space, and one
that may be written, from `start` on. -/
def textAndData (start : UInt32) : List MemSection :=
  [⟨0x13FF000, 0x1000, 7, 5⟩, ⟨start, 0x1000, 7, 7⟩]

/-- The state after boot, with answers of the heap for three pages in two tables. -/
def bootForTwoTables : Vm :=
  (bootVm 3 8).withHeap [some 0x9000, some 0x9010, some 0x5000, some 0x9020, some 0x9030,
    some 0x6000, some 0x9040, some 0x9050, some 0x9060, some 0x9070]

lemma bootForTwoTables_init : VmInit bootForTwoTables :=
  (bootVm_init (by decide) (by decide) (by decide) (by decide)).withHeap _

/-- Without a gap the data may be written. -/
theorem accessTakesEffect_iff_adjacent :
    ∃ s', vmmMapSections 0 (textAndData 0x1400000) (0, 0) bootForTwoTables = (.ok 0, s') ∧
      AccessTakesEffect 0 (textAndData 0x1400000) 0x13FF000 0x1400FFF s' := by
  have hok : (vmmMapSections 0 (textAndData 0x1400000) (0, 0) bootForTwoTables).1.toOption =
      some 0 := by decide +kernel
  obtain ⟨s', hrun⟩ := run_of_toOption hok
  obtain ⟨lim, ho⟩ := bootForTwoTables_init.orderly
  have hk : KernelApart 0 bootForTwoTables := kernelApart_of_boot rfl
  have hord : InOrder (textAndData 0x1400000) (0, 0) := by decide
  refine ⟨s', hrun, (accessTakesEffect_iff ho hk (by decide) hord hrun).mpr fun w h1 h2 => ?_⟩
  have hfirst : firstPage (loadBounds (textAndData 0x1400000) (0, 0)).1 = 0x13FF := by decide
  have hcount : pageCount (loadBounds (textAndData 0x1400000) (0, 0)).1
      (loadBounds (textAndData 0x1400000) (0, 0)).2 = 2 := by decide
  rw [hfirst, hcount] at h2
  rw [hfirst] at h1 ⊢
  obtain rfl | rfl : w = 0x13FF ∨ w = 0x1400 := by omega
  · exact ⟨fun hpre => absurd hpre (by decide), fun _ _ => by decide⟩
  · exact ⟨fun hpre => absurd hpre (by decide), fun _ _ => by decide⟩

/-- **With a gap of one page at the start of their range, the data may not be written**. -/
theorem not_accessTakesEffect_gap :
    AccessFlags (textAndData 0x1401000) ∧ (∀ w, bootForTwoTables.userMap 0 w = none) ∧
      ∃ s', vmmMapSections 0 (textAndData 0x1401000) (0, 0) bootForTwoTables = (.ok 0, s') ∧
        loadBounds (textAndData 0x1401000) (0, 0) = (0x13FF000, 0x1401FFF) ∧
        ¬ AccessTakesEffect 0 (textAndData 0x1401000) 0x13FF000 0x1401FFF s' := by
  have hok : ((vmmMapSections 0 (textAndData 0x1401000) (0, 0) bootForTwoTables).1.toOption,
      (pdGetPermissions 0 0x1401000
        (vmmMapSections 0 (textAndData 0x1401000) (0, 0) bootForTwoTables).2).1.toOption.bind
          Except.toOption) = (some 0, some (1, 0)) := by decide +kernel
  obtain ⟨hret, hperm⟩ := Prod.mk.inj hok
  obtain ⟨s', hrun⟩ := run_of_toOption hret
  rw [hrun] at hperm
  refine ⟨by decide, bootForTwoTables_init.userMap_none 0, s', hrun, by decide, fun h => ?_⟩
  obtain ⟨acc, heq, hiff⟩ := h 0x1401 (by decide) (by decide)
  have hpage : pageSize * 0x1401 = 0x1401000 := by decide
  rw [hpage] at heq
  rw [heq] at hperm
  have hzero : (privUser, acc) = (1, 0) := Option.some.inj hperm
  have hacc : acc = accRw := hiff.mpr ⟨⟨0x1401000, 0x1000, 7, 7⟩, rfl, by decide⟩
  rw [hacc] at hzero
  exact absurd hzero (by decide)

end ShrekOS
