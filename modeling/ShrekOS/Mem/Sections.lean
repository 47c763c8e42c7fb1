/-
What `vmm_map_sections` does to the page tables, exactly.

* `sectionFlags`, `sectionPte`: the flags of a page, from the section it is found in, and
  its entry in the frame;
* `IsLow`, `IsHigh`, `boundingAddr_low`, `boundingAddr_high`: the bounds of the sections;
* `vmmMapSections_loaded`: **a load** fails, or maps all pages between the bounds to a frame;
* `mapsSections_iff`: **when every byte of every section is mapped**: the last byte of all
  sections is not the first byte of a page.

The upper bound is the address of the last byte, but it is rounded up as if it were the
address behind it.
-/
import ShrekOS.Mem.Answers
import ShrekOS.Mem.KernelSpace
import ShrekOS.Mem.Orderly
import ShrekOS.Mem.UserPages

namespace ShrekOS

open Kit Kit.Cmd Vm

variable {lim d a n : ℕ} {s s' : Vm} {secs : List MemSection} {E : Fault → Vm → Prop}

/-! ### The pages of a load -/

/-- The flags that a page gets from the section found for it: its own, or the default ones. -/
def foundFlags : Option MemSection → ℕ × ℕ
  | none => (flagDefault, flagDefault)
  | some ms => (ms.pteF.toNat, ms.pdeF.toNat)

/-- The section that is found for a page. -/
def sectionOf (secs : List MemSection) (w : ℕ) : Option MemSection :=
  (msGetBoundingSection secs (UInt32.ofNat (pageSize * w))
    (UInt32.ofNat (pageSize * w) + 4095)).2

/-- The flags of a page. -/
def sectionFlags (secs : List MemSection) (w : ℕ) : ℕ × ℕ := foundFlags (sectionOf secs w)

/-- The entry of page `i` from `first` on, in the frame at `a`. -/
def sectionPte (secs : List MemSection) (first a i : ℕ) : ℕ :=
  addFlags (a + pageSize * i) (sectionFlags secs (first + i)).1

/-- The page directory flags of the sections are flags, and make page tables present. -/
def TableFlags (secs : List MemSection) : Prop :=
  ∀ ms ∈ secs, ms.pdeF.toNat < 2 ^ 12 ∧ entryPresent ms.pdeF.toNat = true

instance (secs : List MemSection) : Decidable (TableFlags secs) :=
  List.decidableBAll _ secs

lemma ofNat_page_aligned (w : ℕ) : (UInt32.ofNat (pageSize * w)).toNat % pageSize = 0 := by
  rw [UInt32.toNat_ofNat']
  simp only [pageSize]
  omega

/-- A page is found in one of the sections, or in none. -/
lemma mem_of_sectionOf (hne : secs ≠ []) {w : ℕ} {ms : MemSection}
    (h : sectionOf secs w = some ms) : ms ∈ secs :=
  (boundingSection_page hne (ofNat_page_aligned w)).2 ms h

/-- The page directory flags of a page. -/
lemma TableFlags.sectionFlags (h : TableFlags secs) (hne : secs ≠ []) (w : ℕ) :
    (sectionFlags secs w).2 < 2 ^ 12 ∧ entryPresent (sectionFlags secs w).2 = true := by
  unfold ShrekOS.sectionFlags
  cases hms : sectionOf secs w with
  | none => exact ⟨by decide, by decide⟩
  | some ms => exact h ms (mem_of_sectionOf hne hms)

/-- One page of the loop of `vmm_map_sections`, whatever section it is found in. -/
lemma mapPages_succ (hne : secs ≠ []) {first k : ℕ} {v : UInt32} (hv : v.toNat = pageSize * first)
    (hend : pageSize * (first + n) ≤ 2 ^ 32) (hn : a + pageSize * n ≤ 2 ^ 32) (hk : k + 1 ≤ n) :
    mapPages d secs v a n (k + 1) = (do
      let r ← pdCreateMapping d (pageSize * (first + (n - (k + 1))))
        (a + pageSize * (n - (k + 1))) (sectionFlags secs (first + (n - (k + 1)))).1
        (sectionFlags secs (first + (n - (k + 1)))).2
      if r < 0 then pure (-4) else mapPages d secs v a n k) := by
  set i := n - (k + 1) with hidef
  have hmul : pageSize * i + pageSize ≤ pageSize * n := by
    rw [← Nat.mul_succ]
    exact Nat.mul_le_mul_left _ (by omega)
  have hpos := FrameManager.pageSize_pos
  rw [mul_add] at hend
  have haddr : (v + UInt32.ofNat (pageSize * i)).toNat = pageSize * (first + i) := by
    rw [toNat_add_page, hv, Nat.mod_eq_of_lt (by omega), mul_add]
  have hcur : v + UInt32.ofNat (pageSize * i) = UInt32.ofNat (pageSize * (first + i)) := by
    rw [← UInt32.toNat_inj, haddr, UInt32.toNat_ofNat', Nat.mod_eq_of_lt]
    rw [← haddr]
    exact UInt32.toNat_lt _
  have hpage : (a + pageSize * i) % 2 ^ 32 = a + pageSize * i := Nat.mod_eq_of_lt (by omega)
  have hal : (v + UInt32.ofNat (pageSize * i)).toNat % pageSize = 0 := by
    rw [haddr, Nat.mul_mod_right]
  obtain ⟨hcode, -⟩ := boundingSection_page hne hal
  rw [mapPages, ← hidef, sectionFlags, sectionOf, ← hcur, haddr, hpage]
  rcases hb : msGetBoundingSection secs (v + UInt32.ofNat (pageSize * i))
    (v + UInt32.ofNat (pageSize * i) + 4095) with ⟨code, ms⟩
  rw [hb] at hcode
  dsimp only at hcode ⊢
  rw [if_neg (not_lt.mpr hcode)]
  cases ms <;> rfl

/-- A page of a load is one of the user space. -/
lemma userPage_of_load {first i : ℕ} (hlow : userMemStart ≤ pageSize * first)
    (hend : pageSize * (first + n) ≤ 2 ^ 32) (hi : i < n) :
    pageSize * (first + i) < 2 ^ 32 ∧ UserPage (pageSize * (first + i) / pageSize) := by
  rw [Nat.mul_div_cancel_left _ FrameManager.pageSize_pos]
  simp only [UserPage, userMemStart, pageSize, numEntries, numKernelPde] at *
  omega

/-- What became of the directory entry `v` for table `j`: it was present before, or it has the
flags of the first page that was mapped there. -/
def TableEntry (s : Vm) (d : ℕ) (secs : List MemSection) (first j v : ℕ) : Prop :=
  (entryPresent (s.dirs d j) = true ∧ v = s.dirs d j) ∨
    (entryPresent (s.dirs d j) = false ∧ ∃ p, p % pageSize = 0 ∧
      v = addFlags p (sectionFlags secs (max first (j * numEntries))).2)

/-- The directory after the first `i` pages from `first` on: the entries for their tables, and
the other ones as before. -/
structure TablesMade (s₀ : Vm) (d : ℕ) (secs : List MemSection) (first i : ℕ) (s : Vm) : Prop where
  made : ∀ w, first ≤ w → w < first + i →
    TableEntry s₀ d secs first (w / numEntries) (s.dirs d (w / numEntries))
  others : ∀ j, (∀ w, first ≤ w → w < first + i → w / numEntries ≠ j) →
    s.dirs d j = s₀.dirs d j

lemma TablesMade.start (s : Vm) (d : ℕ) (secs : List MemSection) (first : ℕ) :
    TablesMade s d secs first 0 s :=
  ⟨fun _ h1 h2 => absurd h2 (not_lt.mpr h1), fun _ _ => rfl⟩

/-- A directory entry of a load is present. -/
lemma TableEntry.present {first j v : ℕ} (h : TableEntry s d secs first j v)
    (hflags : TableFlags secs) (hne : secs ≠ []) : entryPresent v = true := by
  rcases h with ⟨hpre, rfl⟩ | ⟨-, p, hp, rfl⟩
  · exact hpre
  · rw [entryPresent_addFlags hp]
    exact (hflags.sectionFlags hne _).2

/-- The next page: its table is there already, or is made with its flags. -/
lemma TablesMade.next {s₀ : Vm} {first i : ℕ} (h : TablesMade s₀ d secs first i s)
    (hflags : TableFlags secs) (hne : secs ≠ [])
    (hstep : (entryPresent (s.dirs d ((first + i) / numEntries)) = true ∧
        s'.dirs d = s.dirs d) ∨
      (entryPresent (s.dirs d ((first + i) / numEntries)) = false ∧ ∃ p, p % pageSize = 0 ∧
        s'.dirs d = Function.update (s.dirs d) ((first + i) / numEntries)
          (addFlags p (sectionFlags secs (first + i)).2))) :
    TablesMade s₀ d secs first (i + 1) s' := by
  have hother : ∀ j, j ≠ (first + i) / numEntries → s'.dirs d j = s.dirs d j := by
    intro j hj
    rcases hstep with ⟨-, hsame⟩ | ⟨-, p, -, hmade⟩
    · rw [hsame]
    · rw [hmade, Function.update_of_ne hj]
  have hrest : ∀ j, (∀ w, first ≤ w → w < first + (i + 1) → w / numEntries ≠ j) →
      s'.dirs d j = s₀.dirs d j := by
    intro j hj
    rw [hother j (hj _ (by omega) (by omega)).symm]
    exact h.others j fun w h1 h2 => hj w h1 (by omega)
  -- an earlier page has a table, which is present
  have hearlier : ∀ w, first ≤ w → w < first + i → w / numEntries = (first + i) / numEntries →
      s'.dirs d ((first + i) / numEntries) = s.dirs d ((first + i) / numEntries) := by
    intro w h1 h2 heq
    have hentry := (h.made w h1 h2).present hflags hne
    rcases hstep with ⟨-, hsame⟩ | ⟨habs, -⟩
    · rw [hsame]
    · rw [heq, habs] at hentry
      exact Bool.noConfusion hentry
  refine ⟨fun w h1 h2 => ?_, hrest⟩
  by_cases hold : ∃ w', first ≤ w' ∧ w' < first + i ∧ w' / numEntries = w / numEntries
  · obtain ⟨w', h1', h2', heq⟩ := hold
    have hsame : s'.dirs d (w / numEntries) = s.dirs d (w / numEntries) := by
      by_cases hj : w / numEntries = (first + i) / numEntries
      · rw [hj]
        exact hearlier w' h1' h2' (heq.trans hj)
      · exact hother _ hj
    rw [hsame, ← heq]
    exact h.made w' h1' h2'
  · -- the first page of its table
    obtain rfl : w = first + i := by
      by_contra hw
      exact hold ⟨w, h1, by omega, rfl⟩
    have hbefore : s.dirs d ((first + i) / numEntries) = s₀.dirs d ((first + i) / numEntries) :=
      h.others _ fun w' h1' h2' heq => hold ⟨w', h1', h2', heq⟩
    rw [hbefore] at hstep
    rcases hstep with ⟨hpre, hsame⟩ | ⟨habs, p, hp, hmade⟩
    · exact .inl ⟨hpre, by rw [hsame, hbefore]⟩
    · refine .inr ⟨habs, p, hp, ?_⟩
      have hfirst : max first ((first + i) / numEntries * numEntries) = first + i := by
        rcases Nat.eq_zero_or_pos i with rfl | hi
        · rw [add_zero, max_eq_left]
          exact Nat.div_mul_le_self _ _
        · have hprev : (first + i - 1) / numEntries ≠ (first + i) / numEntries := fun heq =>
            hold ⟨first + i - 1, by omega, by omega, heq⟩
          simp only [numEntries] at *
          omega
      rw [hmade, Function.update_self, hfirst]

/-- What `pd_create_mapping` in a batch does to the directory: a page table is made, with the
flags that were given, when there is none. -/
lemma pdCreateMapping_slot (hg : Generous s) (hb : (s.pds d).batchEnabled = true) {v p x f : ℕ}
    (hva : v % pageSize = 0) (hpa : p % pageSize = 0) :
    wp (pdCreateMapping d v p x f) (fun _ s' =>
      (entryPresent (s.dirs d (pdeIndex v)) = true ∧ s'.dirs d = s.dirs d) ∨
      (entryPresent (s.dirs d (pdeIndex v)) = false ∧ ∃ q, q % pageSize = 0 ∧
        s'.dirs d = Function.update (s.dirs d) (pdeIndex v) (addFlags q f)))
      (fun _ _ => True) s := by
  rw [pdCreateMapping, wp_ite]
  refine ⟨fun hc => absurd hc (by simp [isPageAligned, hva, hpa]), fun _ => ?_⟩
  rw [wp_bind, createTable, wp_bind, wp_entry, wp_ite]
  constructor
  · intro hpre
    rw [wp_pure]
    exact wp_mono (recordMapping_grown hg hb _ _ _ none)
      (fun _ s₁ hpost => .inl ⟨hpre, congrFun hpost.1 d⟩) fun _ _ _ => trivial
  · intro hpre
    have habs : entryPresent (s.dirs d (pdeIndex v)) = false := (Bool.not_eq_true _).mp hpre
    rw [wp_bind]
    refine wp_mono (memalign_generous hg (Q := fun r s₁ => ∃ q, r = some q ∧ q % pageSize = 0 ∧
      Generous s₁ ∧ s₁.pds = s.pds) fun q rs hal _ _ hgen => ⟨q, rfl, hal, hgen, rfl⟩)
      (fun r s₁ hpost => ?_) fun _ _ _ => trivial
    obtain ⟨q, rfl, hal, hgen, hpds⟩ := hpost
    dsimp only
    simp only [wp_bind, wp_clearTable, wp_setEntry, wp_pure]
    rw [hpds]
    refine wp_mono (recordMapping_grown (d := d) ?_ ?_ _ _ _ (some q)) (fun _ s₂ hpost => ?_)
      fun _ _ _ => trivial
    · exact hgen
    · simpa using hb
    · refine .inr ⟨habs, q, hal, ?_⟩
      rw [hpost.1]
      funext j
      rw [dirs_of_update (s := s) rfl, if_pos rfl]
      rfl

/-- The loop of `vmm_map_sections` adds a task for every page, in order, and makes the page
tables that are missing. -/
lemma mapPages_strip {M : ℕ → ℕ → Option ℕ} {s₀ : Vm} (hne : secs ≠ [])
    (hflags : TableFlags secs) {first : ℕ} {v : UInt32} (hv : v.toNat = pageSize * first)
    (hlow : userMemStart ≤ pageSize * first) (hend : pageSize * (first + n) ≤ 2 ^ 32)
    (ha : a % pageSize = 0) (hn : a + pageSize * n ≤ 2 ^ 32) :
    ∀ (k : ℕ) {s : Vm}, k ≤ n → Staged d M s → (s.pds d).mappingTasks.map MappingTask.write =
        strip first (sectionPte secs first a) (n - k) →
      TablesMade s₀ d secs first (n - k) s →
      wp (mapPages d secs v a n k) (fun r s' => r = 0 ∧ Staged d M s' ∧
        (s'.pds d).mappingTasks.map MappingTask.write =
          strip first (sectionPte secs first a) n ∧ TablesMade s₀ d secs first n s')
        (fun e _ => Halts e) s := by
  intro k
  induction k with
  | zero =>
      intro s _ h ht hm
      rw [Nat.sub_zero] at ht hm
      exact ⟨rfl, h, ht, hm⟩
  | succ k ih =>
      intro s hk h ht hm
      rw [mapPages_succ hne hv hend hn hk, wp_bind]
      set i := n - (k + 1) with hidef
      have hi : i < n := by omega
      obtain ⟨hlt, hu⟩ := userPage_of_load hlow hend hi
      obtain ⟨hpde, hpre⟩ := hflags.sectionFlags hne (first + i)
      have hal : (a + pageSize * i) % pageSize = 0 := by rw [Nat.add_mul_mod_self_left, ha]
      have hindex : pdeIndex (pageSize * (first + i)) = (first + i) / numEntries := by
        rw [pdeIndex_eq hlt, Nat.mul_div_cancel_left _ FrameManager.pageSize_pos]
      refine wp_mono (wp_both
        (pdCreateMapping_staged h hlt (Nat.mul_mod_right _ _) hal hpde hpre hu)
        (pdCreateMapping_slot h.generous ((h.batch d).mpr rfl) (Nat.mul_mod_right _ _) hal))
        (fun c s₁ hpost => ?_) fun _ _ he => he.1
      obtain ⟨⟨hc, h₁, r, ht₁⟩, hslot⟩ := hpost
      subst hc
      rw [hindex] at hslot
      have hsucc : n - k = i + 1 := by omega
      rw [wp_ite]
      refine ⟨fun hneg => absurd hneg (lt_irrefl 0), fun _ => ih (by omega) h₁ ?_ ?_⟩
      · rw [ht₁, List.map_append, ht, hsucc, strip_succ]
        rfl
      · rw [hsucc]
        exact hm.next hflags hne hslot

/-- The `n` pages from `first` on of `d` were mapped to the frame at `a`, with the flags of
their sections, and no other entry changed. -/
structure Loaded (d first n a : ℕ) (secs : List MemSection) (s s' : Vm) : Prop where
  aligned : a % pageSize = 0
  le : a + pageSize * n ≤ 2 ^ 32
  alloc : ∃ fm', fmAlloc n s.fm = (.ok (.ok a), fm')
  pages : ∀ {e w}, Page w → s'.pageEntry e w =
    if e = d ∧ first ≤ w ∧ w < first + n then present (sectionPte secs first a (w - first))
    else s.pageEntry e w
  tables : ∀ w, first ≤ w → w < first + n →
    TableEntry s d secs first (w / numEntries) (s'.dirs d (w / numEntries))

/-- The first page of a load with the lower bound `low`. -/
def firstPage (low : UInt32) : ℕ := low.toNat / pageSize

/-- How many pages a load with these bounds maps. -/
def pageCount (low high : UInt32) : ℕ :=
  ((pageAlignUp high - 1 - pageAlignDown low + 1) / 4096).toNat

/-- The bounds of a load. -/
def loadBounds (secs : List MemSection) (garbage : UInt32 × UInt32) : UInt32 × UInt32 :=
  (msGetBoundingAddr secs).getD garbage

lemma firstPage_eq (low : UInt32) : (pageAlignDown low).toNat / pageSize = firstPage low := by
  have h4096 : (4096 : UInt32).toNat = 4096 := rfl
  have hlt := low.toNat_lt
  rw [pageAlignDown, UInt32.toNat_mul, UInt32.toNat_div, h4096, firstPage]
  simp only [pageSize]
  omega

/-- `pd_begin_mapping` leaves the directories alone. -/
lemma pdBeginMapping_dirs : wp (pdBeginMapping d) (fun _ s' => s'.dirs = s.dirs) E s := by
  rw [pdBeginMapping, wp_bind, wp_gets, wp_ite]
  refine ⟨fun _ => rfl, fun _ => ?_⟩
  rw [wp_bind, wp_setPd, wp_pure]
  exact dirs_eq_of_update (s := s) rfl rfl

/-- `pd_commit_mapping` leaves the directories alone. -/
lemma pdCommitMapping_dirs :
    wp (pdCommitMapping d) (fun _ s' => s'.dirs = s.dirs) (fun _ _ => True) s := by
  have htasks : ∀ tasks, Keeps Vm.dirs (fun _ => True) (commitTasks d tasks) := by
    intro tasks
    induction tasks with
    | nil => exact .pure ()
    | cons task tasks ih =>
        exact .bind (.gets _) fun _ => .bind (.modify fun _ => rfl) fun _ => ih
  rw [pdCommitMapping, wp_bind, wp_gets, wp_bind]
  refine wp_mono (htasks _ s) (fun _ s₁ hsame => ?_) fun _ _ _ => trivial
  rw [wp_bind, wp_gets, wp_setPd]
  refine Eq.trans (dirs_eq_of_update (d := d) (s := s₁) rfl ?_) hsame
  rfl

/-- **A load** either fails, or maps no page and changes nothing, or maps the pages between
the bounds to a frame. -/
theorem vmmMapSections_loaded (h : LedgerInv lim s) (hs : Settled s) (hflags : TableFlags secs)
    {garbage : UInt32 × UInt32} (huser : InUserSpace secs garbage) :
    wp (vmmMapSections d secs garbage) (fun r s' => r < 0 ∨ (r = 0 ∧
      ((pageCount (loadBounds secs garbage).1 (loadBounds secs garbage).2 = 0 ∧ s' = s) ∨
        ∃ a, Loaded d (firstPage (loadBounds secs garbage).1)
          (pageCount (loadBounds secs garbage).1 (loadBounds secs garbage).2) a secs s s')))
      (fun e _ => Halts e) s := by
  unfold InUserSpace at huser
  rw [vmmMapSections, ← loadBounds]
  rw [← loadBounds] at huser
  generalize loadBounds secs garbage = bounds at huser ⊢
  obtain ⟨low, high⟩ := bounds
  obtain ⟨hlow, hle⟩ := huser
  dsimp only at hlow hle ⊢
  rw [wp_ite]
  refine ⟨fun _ => .inl (by decide), fun hne => ?_⟩
  rw [wp_ite]
  refine ⟨fun hzero => .inr ⟨rfl, .inl ⟨hzero, rfl⟩⟩, fun _ => ?_⟩
  -- a frame for all pages, on record
  refine withFrame_granted h hs d _ _ _ (fun _ _ _ _ _ _ _ _ => .inl (by decide)) fun a s₁ hg => ?_
  have hfirst : (pageAlignDown low).toNat = pageSize * firstPage low := by
    rw [← firstPage_eq, Nat.mul_div_cancel' (Nat.dvd_of_mod_eq_zero (pageAlignDown_mod low))]
  have huser := StaysAbove.pageAlignDown_le hlow
  have hend := StaysAbove.pages_le hle
  rw [hfirst] at huser
  rw [hfirst, ← mul_add] at hend
  rw [wp_bind]
  refine wp_imp (wp_and (pdBeginMapping_staged hg.settled d) pdBeginMapping_dirs)
    fun r s₂ hpost => ?_
  obtain ⟨⟨hr, hf₂, ht₂, -⟩, hd₂⟩ := hpost
  subst hr
  rw [wp_ite]
  refine ⟨fun hneg => absurd hneg (lt_irrefl 0), fun _ => ?_⟩
  rw [wp_bind]
  refine wp_imp (mapPages_strip hne hflags hfirst huser hend hg.aligned hg.le _ le_rfl
    hf₂ (by simp [ht₂, strip]) (by rw [Nat.sub_self]; exact .start s₂ d secs _))
    fun r s₃ hpost => ?_
  obtain ⟨hr, hf₃, ht₃, hm₃⟩ := hpost
  subst hr
  rw [wp_ite]
  refine ⟨fun hneg => absurd hneg (lt_irrefl 0), fun _ => ?_⟩
  rw [wp_bind]
  -- the commit fills page tables, and changes no directory entry
  have hcommit : wp (pdCommitMapping d) (fun _ s' => s'.dirs = s₃.dirs) (fun _ _ => True) s₃ :=
    pdCommitMapping_dirs
  refine wp_mono (wp_both (pdCommitMapping_staged (E := fun e _ => Halts e) hf₃) hcommit)
    (fun _ s₄ hpost => ?_) fun _ _ he => he.1
  obtain ⟨⟨-, -, hpages⟩, hd₄⟩ := hpost
  refine .inr ⟨rfl, .inr ⟨a, hg.aligned, hg.le, hg.alloc, fun {e w} hw => ?_, fun w h1 h2 => ?_⟩⟩
  · rw [hpages hw, ht₃, hg.space.pageEntry]
    by_cases he : e = d
    · subst he
      rw [if_pos rfl, strip_foldl]
      exact if_congr (by simp [pageCount]) rfl rfl
    · rw [if_neg he, if_neg fun hcase => he hcase.1]
  -- the directory entry is what the loop has left
  · have hmade := hm₃.made w h1 h2
    rw [TableEntry, hd₂, hg.space.dirs] at hmade
    rw [hd₄]
    exact hmade

/-- **A load that succeeds**, whatever the heap answers: it maps no page and changes nothing
but the heap, or maps the pages between the bounds to a frame. -/
theorem vmmMapSections_succeeds (h : LedgerInv lim s) (htables : Tables s.dirs s.live)
    (hidle : ∀ e, (s.pds e).batchEnabled = false) (hflags : TableFlags secs)
    {garbage : UInt32 × UInt32} (huser : InUserSpace secs garbage)
    (hrun : vmmMapSections d secs garbage s = (.ok 0, s')) :
    (pageCount (loadBounds secs garbage).1 (loadBounds secs garbage).2 = 0 ∧
      s'.pageEntry = s.pageEntry) ∨
    ∃ a, Loaded d (firstPage (loadBounds secs garbage).1)
      (pageCount (loadBounds secs garbage).1 (loadBounds secs garbage).2) a secs s s' := by
  obtain ⟨hp, hgiven, hrun'⟩ := vmmMapSections_generous le_rfl hrun
  have hpost := wp_ok (vmmMapSections_loaded (d := d) (s := s.withHeap hp) (h.of_eq rfl rfl)
    ⟨htables, hgiven, hidle⟩ hflags huser) hrun'
  rcases hpost with hneg | ⟨-, ⟨hzero, hsame⟩ | ⟨a, hl⟩⟩
  · exact absurd hneg (lt_irrefl 0)
  · refine .inl ⟨hzero, ?_⟩
    have hentry : (s'.withHeap []).pageEntry = (s.withHeap hp).pageEntry := by rw [hsame]
    exact hentry
  · exact .inr ⟨a, hl.aligned, hl.le, hl.alloc, hl.pages, hl.tables⟩

/-! ### The bounds -/

/-- The least address of the sections that are not empty. -/
def IsLow (secs : List MemSection) (low : UInt32) : Prop :=
  (∃ ms ∈ secs, ms.len ≠ 0 ∧ ms.vAddrStart = low) ∧
    ∀ ms ∈ secs, ms.len ≠ 0 → low ≤ ms.vAddrStart

/-- The greatest last address of the sections that are not empty. -/
def IsHigh (secs : List MemSection) (high : UInt32) : Prop :=
  (∃ ms ∈ secs, ms.len ≠ 0 ∧ ms.high = high) ∧ ∀ ms ∈ secs, ms.len ≠ 0 → ms.high ≤ high

/-- The loop keeps a lower bound, and it is the first one or the start of a section. -/
lemma boundingAddr_low : ∀ (secs : List MemSection) (low high : UInt32),
    (boundingAddr secs low high).1 ≤ low ∧
      (∀ ms ∈ secs, ms.len ≠ 0 → (boundingAddr secs low high).1 ≤ ms.vAddrStart) ∧
      ((boundingAddr secs low high).1 = low ∨
        ∃ ms ∈ secs, ms.len ≠ 0 ∧ ms.vAddrStart = (boundingAddr secs low high).1)
  | [], low, _ => ⟨UInt32.le_refl low, by simp, .inl rfl⟩
  | ms :: secs, low, high => by
      rw [boundingAddr]
      by_cases hlen : ms.len = 0
      · rw [if_pos hlen]
        obtain ⟨h1, h2, h3⟩ := boundingAddr_low secs low high
        refine ⟨h1, ?_, h3.imp_right ?_⟩
        · rintro ms' (_ | ⟨_, hmem⟩) hne
          · exact absurd hlen hne
          · exact h2 ms' hmem hne
        · rintro ⟨ms', hmem, hms'⟩
          exact ⟨ms', .tail ms hmem, hms'⟩
      · rw [if_neg hlen]
        obtain ⟨h1, h2, h3⟩ := boundingAddr_low secs
          (if ms.vAddrStart < low then ms.vAddrStart else low)
          (if ms.high > high then ms.high else high)
        have hmin : (if ms.vAddrStart < low then ms.vAddrStart else low) ≤ low ∧
            (if ms.vAddrStart < low then ms.vAddrStart else low) ≤ ms.vAddrStart := by
          split_ifs with hlt
          · exact ⟨UInt32.le_of_lt hlt, UInt32.le_refl _⟩
          · exact ⟨UInt32.le_refl _, UInt32.not_lt.mp hlt⟩
        refine ⟨UInt32.le_trans h1 hmin.1, ?_, ?_⟩
        · rintro ms' (_ | ⟨_, hmem⟩) hne
          · exact UInt32.le_trans h1 hmin.2
          · exact h2 ms' hmem hne
        · rcases h3 with heq | ⟨ms', hmem, hms'⟩
          · rw [heq]
            split_ifs
            · exact .inr ⟨ms, .head secs, hlen, rfl⟩
            · exact .inl rfl
          · exact .inr ⟨ms', .tail ms hmem, hms'⟩

/-- The loop keeps an upper bound, and it is the first one or the last address of a section. -/
lemma boundingAddr_high : ∀ (secs : List MemSection) (low high : UInt32),
    high ≤ (boundingAddr secs low high).2 ∧
      (∀ ms ∈ secs, ms.len ≠ 0 → ms.high ≤ (boundingAddr secs low high).2) ∧
      ((boundingAddr secs low high).2 = high ∨
        ∃ ms ∈ secs, ms.len ≠ 0 ∧ ms.high = (boundingAddr secs low high).2)
  | [], _, high => ⟨UInt32.le_refl high, by simp, .inl rfl⟩
  | ms :: secs, low, high => by
      rw [boundingAddr]
      by_cases hlen : ms.len = 0
      · rw [if_pos hlen]
        obtain ⟨h1, h2, h3⟩ := boundingAddr_high secs low high
        refine ⟨h1, ?_, h3.imp_right ?_⟩
        · rintro ms' (_ | ⟨_, hmem⟩) hne
          · exact absurd hlen hne
          · exact h2 ms' hmem hne
        · rintro ⟨ms', hmem, hms'⟩
          exact ⟨ms', .tail ms hmem, hms'⟩
      · rw [if_neg hlen]
        obtain ⟨h1, h2, h3⟩ := boundingAddr_high secs
          (if ms.vAddrStart < low then ms.vAddrStart else low)
          (if ms.high > high then ms.high else high)
        have hmax : high ≤ (if ms.high > high then ms.high else high) ∧
            ms.high ≤ (if ms.high > high then ms.high else high) := by
          split_ifs with hlt
          · exact ⟨UInt32.le_of_lt hlt, UInt32.le_refl _⟩
          · exact ⟨UInt32.le_refl _, UInt32.not_lt.mp hlt⟩
        refine ⟨UInt32.le_trans hmax.1 h1, ?_, ?_⟩
        · rintro ms' (_ | ⟨_, hmem⟩) hne
          · exact UInt32.le_trans hmax.2 h1
          · exact h2 ms' hmem hne
        · rcases h3 with heq | ⟨ms', hmem, hms'⟩
          · rw [heq]
            split_ifs
            · exact .inr ⟨ms, .head secs, hlen, rfl⟩
            · exact .inl rfl
          · exact .inr ⟨ms', .tail ms hmem, hms'⟩

/-- Sections of a program: each ends in the address space, one is not empty, and those that
are not lie in user space. -/
structure UserSections (secs : List MemSection) : Prop where
  fits : ∀ ms ∈ secs, ms.vAddrStart.toNat + ms.len.toNat ≤ 2 ^ 32
  some_nonempty : ∃ ms ∈ secs, ms.len ≠ 0
  user : ∀ ms ∈ secs, ms.len ≠ 0 → userMemStart ≤ ms.vAddrStart.toNat

/-- The last address of a section that is not empty. -/
lemma MemSection.toNat_high {ms : MemSection} (hlen : ms.len ≠ 0)
    (hfits : ms.vAddrStart.toNat + ms.len.toNat ≤ 2 ^ 32) :
    ms.high.toNat = ms.vAddrStart.toNat + ms.len.toNat - 1 ∧ 0 < ms.len.toNat := by
  have hpos : 0 < ms.len.toNat := Nat.pos_of_ne_zero fun h => hlen (UInt32.toNat_inj.mp h)
  have h1 : (1 : UInt32).toNat = 1 := rfl
  have hlt := ms.len.toNat_lt
  rw [MemSection.high, UInt32.toNat_add, UInt32.toNat_sub, h1]
  omega

/-- The bounds of the sections of a program. -/
lemma UserSections.bounds (h : UserSections secs) (garbage : UInt32 × UInt32) :
    IsLow secs (loadBounds secs garbage).1 ∧ IsHigh secs (loadBounds secs garbage).2 ∧
      InUserSpace secs garbage := by
  obtain ⟨ms, hmem, hlen⟩ := h.some_nonempty
  obtain ⟨-, hlow, hlow'⟩ := boundingAddr_low secs 0xFFFFFFFF 0
  obtain ⟨-, hhigh, hhigh'⟩ := boundingAddr_high secs 0xFFFFFFFF 0
  obtain ⟨hms, hpos⟩ := ms.toNat_high hlen (h.fits ms hmem)
  have hle : (boundingAddr secs 0xFFFFFFFF 0).1 ≤ (boundingAddr secs 0xFFFFFFFF 0).2 := by
    have h1 := UInt32.le_iff_toNat_le.mp (hlow ms hmem hlen)
    have h2 := UInt32.le_iff_toNat_le.mp (hhigh ms hmem hlen)
    exact UInt32.le_iff_toNat_le.mpr (by omega)
  have hbounds : loadBounds secs garbage = boundingAddr secs 0xFFFFFFFF 0 := by
    have hsome : msGetBoundingAddr secs = some (boundingAddr secs 0xFFFFFFFF 0) :=
      if_neg (UInt32.not_lt.mpr hle)
    rw [loadBounds, hsome]
    rfl
  have hIsLow : IsLow secs (boundingAddr secs 0xFFFFFFFF 0).1 := by
    refine ⟨?_, hlow⟩
    rcases hlow' with heq | hsome
    · -- a section that begins at the last address
      refine ⟨ms, hmem, hlen, ?_⟩
      have h1 := UInt32.le_iff_toNat_le.mp (hlow ms hmem hlen)
      have hlt := ms.vAddrStart.toNat_lt
      have hmax : (0xFFFFFFFF : UInt32).toNat = 0xFFFFFFFF := rfl
      rw [heq, hmax] at h1
      rw [heq, ← UInt32.toNat_inj, hmax]
      omega
    · exact hsome
  have hIsHigh : IsHigh secs (boundingAddr secs 0xFFFFFFFF 0).2 := by
    refine ⟨?_, hhigh⟩
    rcases hhigh' with heq | hsome
    · refine ⟨ms, hmem, hlen, ?_⟩
      have h2 := UInt32.le_iff_toNat_le.mp (hhigh ms hmem hlen)
      have huser := h.user ms hmem hlen
      have hzero : (0 : UInt32).toNat = 0 := rfl
      rw [heq, hzero] at h2
      simp only [userMemStart] at huser
      omega
    · exact hsome
  refine ⟨hbounds ▸ hIsLow, hbounds ▸ hIsHigh, ?_⟩
  obtain ⟨ms', hmem', hlen', hstart⟩ := hIsLow.1
  have huser := h.user ms' hmem' hlen'
  rw [hstart] at huser
  unfold InUserSpace
  rw [← loadBounds, hbounds]
  exact ⟨huser, hle⟩

/-- The pages that are mapped: from the page of the lower bound up to the one of the upper
bound, which is left out when the upper bound is its first byte. -/
lemma pageCount_eq {low high : UInt32} (hlow : userMemStart ≤ low.toNat) (hle : low ≤ high) :
    firstPage low + pageCount low high = (high.toNat + 4095) / pageSize := by
  have h4096 : (4096 : UInt32).toNat = 4096 := rfl
  have h1 : (1 : UInt32).toNat = 1 := rfl
  have hlow' := low.toNat_lt
  have hhigh' := high.toNat_lt
  rw [UInt32.le_iff_toNat_le] at hle
  simp only [pageCount, firstPage, pageAlignUp, pageAlignDown, UInt32.toNat_mul,
    UInt32.toNat_div, UInt32.toNat_add, UInt32.toNat_sub, h4096, h1, pageSize,
    userMemStart] at *
  omega

/-! ### Bytes that are mapped -/

/-- The directory has a present mapping for an address. -/
def Vm.Maps (s : Vm) (d v : ℕ) : Prop := ∃ u, (pdGetMapping d v s).1 = .ok (.ok u)

lemma Vm.maps_iff {v : ℕ} (hv : v < 2 ^ 32) :
    s.Maps d v ↔ s.pageEntry d (v / pageSize) ≠ none := by
  have hread : wp (pdGetMapping d v) (fun r _ => (∃ u, r = .ok u) ↔
      s.pageEntry d (v / pageSize) ≠ none) (fun _ _ => False) s := by
    refine pdGetMapping_read hv (fun u hu => ?_) fun e hnone => ?_
    · simp [hu]
    · simp [hnone]
  obtain ⟨r, s', hrun, hiff⟩ := wp_returns hread
  rw [← hiff, Vm.Maps, hrun]
  simp

/-- The flags of the sections are flags of the header: they make entries and page tables
present. -/
def HeaderFlags (secs : List MemSection) : Prop :=
  TableFlags secs ∧ ∀ ms ∈ secs, ms.pteF.toNat < 2 ^ 12 ∧ entryPresent ms.pteF.toNat = true

instance (secs : List MemSection) : Decidable (HeaderFlags secs) :=
  @instDecidableAnd _ _ _ (List.decidableBAll _ secs)

/-- The page table flags of a page are flags. -/
lemma HeaderFlags.sectionFlags_lt (h : HeaderFlags secs) (hne : secs ≠ []) (w : ℕ) :
    (sectionFlags secs w).1 < 2 ^ 12 := by
  unfold sectionFlags
  cases hms : sectionOf secs w with
  | none => exact (by decide : flagDefault < 2 ^ 12)
  | some ms => exact (h.2 ms (mem_of_sectionOf hne hms)).1

/-- With such flags all pages of a load are present. -/
lemma HeaderFlags.present_sectionPte (h : HeaderFlags secs) (hne : secs ≠ []) {first : ℕ}
    (ha : a % pageSize = 0) (i : ℕ) :
    present (sectionPte secs first a i) = some (sectionPte secs first a i) := by
  refine present_of ?_
  rw [sectionPte, entryPresent_addFlags (by rw [Nat.add_mul_mod_self_left, ha])]
  unfold sectionFlags
  cases hms : sectionOf secs (first + i) with
  | none => decide
  | some ms => exact (h.2 ms (mem_of_sectionOf hne hms)).2

/-- A page after a load that succeeded: it is one of the load, or was mapped before. -/
lemma maps_iff_of_load (ho : Orderly lim s) (hflags : HeaderFlags secs)
    {garbage : UInt32 × UInt32} (huser : InUserSpace secs garbage) (hne : secs ≠ [])
    (hrun : vmmMapSections d secs garbage s = (.ok 0, s')) {v : ℕ} (hv : v < 2 ^ 32) :
    s'.Maps d v ↔ (firstPage (loadBounds secs garbage).1 ≤ v / pageSize ∧
      v / pageSize < firstPage (loadBounds secs garbage).1 +
        pageCount (loadBounds secs garbage).1 (loadBounds secs garbage).2) ∨ s.Maps d v := by
  have hw : Page (v / pageSize) := page_of_lt (by simp only [pageSize]; omega)
  rw [Vm.maps_iff hv, Vm.maps_iff hv]
  rcases vmmMapSections_succeeds ho.toLedgerInv ho.tables ho.idle hflags.1 huser hrun with
    ⟨hzero, hsame⟩ | ⟨a, hl⟩
  · rw [hsame]
    constructor
    · exact .inr
    · rintro (hin | hold)
      · omega
      · exact hold
  · rw [hl.pages hw]
    split_ifs with hin
    · rw [hflags.present_sectionPte hne hl.aligned]
      exact ⟨fun _ => .inl hin.2, fun _ => Option.some_ne_none _⟩
    · constructor
      · exact .inr
      · rintro (hin' | hold)
        · exact absurd ⟨rfl, hin'⟩ hin
        · exact hold

/-- Every byte of every section that is not empty is mapped. -/
def MapsSections (d : ℕ) (secs : List MemSection) (s : Vm) : Prop :=
  ∀ ms ∈ secs, ms.len ≠ 0 → ∀ v, ms.vAddrStart.toNat ≤ v →
    v < ms.vAddrStart.toNat + ms.len.toNat → s.Maps d v

/-- No page of a section that is not empty is mapped. -/
def MapsNone (d : ℕ) (secs : List MemSection) (s : Vm) : Prop :=
  ∀ ms ∈ secs, ms.len ≠ 0 → ∀ v, ms.vAddrStart.toNat ≤ v →
    v < ms.vAddrStart.toNat + ms.len.toNat → ¬ s.Maps d v

/-- The last byte of all sections is not the first byte of a page. -/
def EndsInsidePage (secs : List MemSection) : Prop :=
  ∀ ms ∈ secs, ms.len ≠ 0 → (∀ ms' ∈ secs, ms'.len ≠ 0 → ms'.high ≤ ms.high) →
    ms.high.toNat % pageSize ≠ 0

/-- **When every byte of every section is mapped** by a load that succeeds: when the last
byte of all of them is not the first byte of a page. -/
theorem mapsSections_iff (ho : Orderly lim s) (hsecs : UserSections secs)
    (hflags : HeaderFlags secs) (hfree : MapsNone d secs s) {garbage : UInt32 × UInt32}
    (hrun : vmmMapSections d secs garbage s = (.ok 0, s')) :
    MapsSections d secs s' ↔ EndsInsidePage secs := by
  obtain ⟨⟨-, hlow⟩, ⟨⟨top, htop, htoplen, htophigh⟩, hhigh⟩, huser⟩ := hsecs.bounds garbage
  have hne : secs ≠ [] := List.ne_nil_of_mem htop
  have hcount : firstPage (loadBounds secs garbage).1 +
      pageCount (loadBounds secs garbage).1 (loadBounds secs garbage).2 = _ :=
    pageCount_eq huser.1 huser.2
  have hin : ∀ {v : ℕ}, v < 2 ^ 32 → (s'.Maps d v ↔ _) := fun hv =>
    maps_iff_of_load ho hflags huser hne hrun hv
  rw [hcount] at hin
  constructor
  · -- the last byte of a section that ends last is mapped only if its page is
    intro hall ms hms hlen hmax hzero
    obtain ⟨heq, hpos⟩ := ms.toNat_high hlen (hsecs.fits ms hms)
    have hfits := hsecs.fits ms hms
    have hhi : ms.high = (loadBounds secs garbage).2 :=
      UInt32.le_antisymm (hhigh ms hms hlen) (htophigh ▸ hmax top htop htoplen)
    have hmapped := hall ms hms hlen ms.high.toNat (by omega) (by omega)
    rcases (hin ms.high.toNat_lt).mp hmapped with hrange | hold
    · rw [hhi] at hrange hzero
      simp only [pageSize] at hrange hzero
      omega
    · exact hfree ms hms hlen _ (by omega) (by omega) hold
  · intro hends ms hms hlen v hge hlt
    obtain ⟨heq, hpos⟩ := ms.toNat_high hlen (hsecs.fits ms hms)
    have hfits := hsecs.fits ms hms
    have hlast := hends top htop htoplen fun ms' hms' hlen' =>
      htophigh ▸ hhigh ms' hms' hlen'
    have hfirst := UInt32.le_iff_toNat_le.mp (hlow ms hms hlen)
    have hle := UInt32.le_iff_toNat_le.mp (hhigh ms hms hlen)
    rw [htophigh] at hlast
    refine (hin (by omega)).mpr (.inl ?_)
    simp only [firstPage, pageSize] at *
    omega

/-! ### Two loads after boot -/

/-- After boot no address of the user space is mapped. -/
lemma VmInit.mapsNone (h : VmInit s) (hsecs : UserSections secs) : MapsNone d secs s := by
  intro ms hms hlen v hge hlt hmaps
  have huser := hsecs.user ms hms hlen
  have hfits := hsecs.fits ms hms
  rw [Vm.maps_iff (by omega)] at hmaps
  refine hmaps (h.pageEntry_none ?_)
  simp only [UserPage, userMemStart, pageSize, numEntries, numKernelPde] at *
  omega

/-- After boot the virtual memory is orderly. -/
lemma VmInit.orderly (h : VmInit s) : ∃ lim, Orderly lim s := by
  obtain ⟨lim, hg⟩ := h.guarded
  exact ⟨lim, hg.secure.toLedgerInv, hg.tables, hg.idle⟩

/-- A writable section at the start of the user space. -/
def sectionAt (len : UInt32) : MemSection := ⟨0x1000000, len, 7, 7⟩

/-- The state after boot, with answers of the heap for two pages. -/
def bootWithHeap : Vm :=
  (bootVm 3 8).withHeap [some 0x9000, some 0x9010, some 0x5000, some 0x9020, some 0x9030,
    some 0x9040, some 0x9050]

lemma VmInit.withHeap (h : VmInit s) (hp : List (Option ℕ)) : VmInit (s.withHeap hp) :=
  ⟨h.fm, h.fresh, h.kernel⟩

lemma bootWithHeap_init : VmInit bootWithHeap :=
  (bootVm_init (by decide) (by decide) (by decide) (by decide)).withHeap _

lemma sectionAt_user {len : UInt32} (hpos : len ≠ 0) (hle : len.toNat ≤ 2 ^ 24) :
    UserSections [sectionAt len] := by
  have hstart : (sectionAt len).vAddrStart.toNat = 2 ^ 24 := rfl
  refine ⟨?_, ⟨_, .head _, hpos⟩, ?_⟩
  · rintro ms (_ | ⟨_, ⟨⟩⟩)
    rw [hstart]
    show 2 ^ 24 + len.toNat ≤ 2 ^ 32
    omega
  · rintro ms (_ | ⟨_, ⟨⟩⟩) -
    rw [hstart]
    decide

/-- A page and a half are mapped. -/
theorem mapsSections_iff_pageAndHalf :
    ∃ s', vmmMapSections 0 [sectionAt 0x1800] (0, 0) bootWithHeap = (.ok 0, s') ∧
      MapsSections 0 [sectionAt 0x1800] s' := by
  have hok : (vmmMapSections 0 [sectionAt 0x1800] (0, 0) bootWithHeap).1.toOption = some 0 := by
    decide +kernel
  obtain ⟨s', hrun⟩ := run_of_toOption hok
  obtain ⟨lim, ho⟩ := bootWithHeap_init.orderly
  have hsecs : UserSections [sectionAt 0x1800] := sectionAt_user (by decide) (by decide)
  refine ⟨s', hrun, (mapsSections_iff ho hsecs (by decide) (bootWithHeap_init.mapsNone hsecs)
    hrun).mpr ?_⟩
  rintro ms (_ | ⟨_, ⟨⟩⟩) - -
  decide

/-- **The last byte of a section of a page and one byte is not mapped**, although the load
returns `0`. -/
theorem not_mapsSections_pageAndByte :
    UserSections [sectionAt 0x1001] ∧ HeaderFlags [sectionAt 0x1001] ∧
      MapsNone 0 [sectionAt 0x1001] bootWithHeap ∧
      ∃ s', vmmMapSections 0 [sectionAt 0x1001] (0, 0) bootWithHeap = (.ok 0, s') ∧
        ¬ MapsSections 0 [sectionAt 0x1001] s' := by
  have hok : (vmmMapSections 0 [sectionAt 0x1001] (0, 0) bootWithHeap).1.toOption = some 0 := by
    decide +kernel
  obtain ⟨s', hrun⟩ := run_of_toOption hok
  obtain ⟨lim, ho⟩ := bootWithHeap_init.orderly
  have hsecs : UserSections [sectionAt 0x1001] := sectionAt_user (by decide) (by decide)
  have hnone := bootWithHeap_init.mapsNone (d := 0) hsecs
  refine ⟨hsecs, by decide, hnone, s', hrun, fun hall => ?_⟩
  have hlast : s'.Maps 0 0x1001000 := hall _ (.head _) (by decide) _ (by decide) (by decide)
  rw [maps_iff_of_load ho (by decide) (hsecs.bounds _).2.2 (by simp) hrun (by decide)] at hlast
  rcases hlast with hin | hold
  · exact absurd hin.2 (by decide)
  · exact hnone _ (.head _) (by decide) _ (by decide) (by decide) hold

end ShrekOS
