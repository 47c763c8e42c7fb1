/-
What a process may do with the pages that `vmm_new_user_page` gives it.

* `Usable`: the pages are present, and `pd_get_permissions` reports user mode and write access;
* `Requested`: what the loop of the call has done so far;
* `usable_iff`: **when new pages are usable**: every directory entry for them that is there
  before the call grants user mode and write access;
* `not_usable_gap`: pages in a range of 4 MB that begins with a gap between two sections.

The flags for the directory entry are used only where a page table is made. Nothing is assumed
of the state: the entries may come from any operations before.
-/
import ShrekOS.Mem.Mappings
import ShrekOS.Mem.SectionAccess

namespace ShrekOS

open Kit Kit.Cmd Vm

variable {d first : ℕ} {s s' s₀ : Vm} {base numPages : UInt32}

/-- A word of a page table or of a directory that grants user mode and write access. -/
def Grants (v : ℕ) : Prop := v.testBit 2 = true ∧ v.testBit 1 = true

instance (v : ℕ) : Decidable (Grants v) := inferInstanceAs (Decidable (_ ∧ _))

/-- The pages of the request are present, for the user to read and write. -/
def Usable (d : ℕ) (base numPages : UInt32) (s : Vm) : Prop :=
  ∀ w, base.toNat / pageSize ≤ w → w < base.toNat / pageSize + numPages.toNat →
    (pdGetPermissions d (pageSize * w) s).1 = .ok (.ok (privUser, accRw))

/-- The directory entries for the request that are present grant user mode and write access. -/
def SlotsGrant (d : ℕ) (base numPages : UInt32) (s : Vm) : Prop :=
  ∀ w, base.toNat / pageSize ≤ w → w < base.toNat / pageSize + numPages.toNat →
    entryPresent (s.dirs d (w / numEntries)) = true → Grants (s.dirs d (w / numEntries))

/-- A request for one page is about one slot. -/
lemma slotsGrant_one : SlotsGrant d base 1 s ↔
    (entryPresent (s.dirs d (base.toNat / pageSize / numEntries)) = true →
      Grants (s.dirs d (base.toNat / pageSize / numEntries))) := by
  constructor
  · exact fun h => h _ le_rfl (Nat.lt_succ_self _)
  · intro h w h1 h2
    obtain rfl : base.toNat / pageSize = w := le_antisymm h1 (Nat.lt_succ_iff.mp h2)
    exact h

/-! ### The loop -/

/-- A page table entry of a new page: present, and it grants what is asked for. -/
def NewPte (v : ℕ) : Prop := entryPresent v = true ∧ Grants v

lemma grants_addFlags {a f : ℕ} (ha : a % pageSize = 0) : Grants (addFlags a f) ↔ Grants f := by
  rw [Grants, Grants, testBit_addFlags ha (by decide), testBit_addFlags ha (by decide)]

lemma grants_userFlags (i n : ℕ) : Grants (userFlags i n) := by
  rw [userFlags]
  split_ifs <;> decide

lemma newPte_addFlags {p : ℕ} (hp : p % pageSize = 0) (i n : ℕ) :
    NewPte (addFlags p (userFlags i n)) := by
  refine ⟨?_, (grants_addFlags hp).mpr (grants_userFlags i n)⟩
  rw [entryPresent_addFlags hp, userFlags_present]

/-- After `i` pages of a request from `first` on: the slots that were present are as before, and
those that became present grant what is asked for; every page has its slot and a task. -/
structure Requested (d first i : ℕ) (s₀ s : Vm) : Prop where
  batch : (s.pds d).batchEnabled = true
  old : ∀ {j}, entryPresent (s₀.dirs d j) = true → s.dirs d j = s₀.dirs d j
  new : ∀ {j}, entryPresent (s₀.dirs d j) = false → entryPresent (s.dirs d j) = true →
    Grants (s.dirs d j)
  slots : ∀ w, first ≤ w → w < first + i → entryPresent (s.dirs d (w / numEntries)) = true
  tasks : ∀ w, first ≤ w → w < first + i → ∃ t ∈ (s.pds d).mappingTasks, t.About w
  entries : ∀ t ∈ (s.pds d).mappingTasks, t.vAddr < 2 ^ 32 ∧ NewPte t.pte

/-- One more page. -/
lemma Requested.succ {i v p n : ℕ} (h : Requested d first i s₀ s) (hv : v < 2 ^ 32)
    (hpage : v / pageSize = first + i) :
    wp (pdCreateMapping d v p (userFlags i n) userWr)
      (fun c s' => c < 0 ∨ c = 0 ∧ Requested d first (i + 1) s₀ s') (fun _ _ => True) s := by
  refine wp_imp (pdCreateMapping_queued h.batch) fun c s' hpost => hpost.imp id ?_
  rintro ⟨rfl, -, hp, s₁, r, hmk, heap, -, rfl⟩
  have hb₁ : (s₁.pds d).batchEnabled = true := hmk.batch.1.trans h.batch
  set t : MappingTask := ⟨v, addFlags p (userFlags i n), r⟩
  set s₂ : Vm := { s₁ with heap := heap, pds := Function.update s₁.pds d ((s₁.pds d).addTask t) }
  have hdirs : ∀ j, s₂.dirs d j = s₁.dirs d j := fun j => by simp [s₂, Vm.dirs]
  have htasks : (s₂.pds d).mappingTasks = (s.pds d).mappingTasks ++ [t] := by
    simp [s₂, PageDirectory.addTask_mappingTasks hb₁, hmk.batch.2]
  rw [pdeIndex_eq hv, hpage] at hmk
  -- a slot that is made here
  have hmade : ∀ {j}, entryPresent (s.dirs d j) = false → j = (first + i) / numEntries →
      entryPresent (s₁.dirs d j) = true ∧ Grants (s₁.dirs d j) := by
    rintro j habs rfl
    obtain ⟨a, ha, -, heq⟩ := hmk.dirs_of_absent habs
    rw [heq, entryPresent_addFlags ha, grants_addFlags ha]
    exact ⟨by decide, by decide⟩
  refine ⟨rfl, by simpa [s₂] using hb₁, fun hj => ?_, fun {j} hj hpre => ?_, fun w h1 h2 => ?_,
    fun w h1 h2 => ?_, fun u hu => ?_⟩
  · rw [hdirs, hmk.dirs_of_present (by rw [h.old hj, hj]), h.old hj]
  · rw [hdirs] at hpre ⊢
    cases habs : entryPresent (s.dirs d j) with
    | true =>
        rw [hmk.dirs_of_present habs]
        exact h.new hj habs
    | false =>
        by_cases hne : j = (first + i) / numEntries
        · exact (hmade habs hne).2
        · rw [hmk.dirs_of_ne hne, habs] at hpre
          exact absurd hpre Bool.false_ne_true
  · rw [hdirs]
    cases habs : entryPresent (s.dirs d (w / numEntries)) with
    | true => rw [hmk.dirs_of_present habs, habs]
    | false =>
        rcases Nat.lt_or_ge w (first + i) with hlt | hge
        · exact absurd (h.slots w h1 hlt) (by simp [habs])
        · obtain rfl : w = first + i := by omega
          exact (hmade habs rfl).1
  · rw [htasks]
    rcases Nat.lt_or_ge w (first + i) with hlt | hge
    · obtain ⟨u, hu, hab⟩ := h.tasks w h1 hlt
      exact ⟨u, List.mem_append_left _ hu, hab⟩
    · obtain rfl : w = first + i := by omega
      exact ⟨t, List.mem_append_right _ (.head _), hpage⟩
  · rw [htasks, List.mem_append, List.mem_singleton] at hu
    rcases hu with hu | rfl
    · exact h.entries u hu
    · exact ⟨hv, newPte_addFlags hp i n⟩

/-- **The loop of `vmm_new_user_page`**, when it goes through. -/
lemma mapUserPages_requested {pAddr n : ℕ} (hfirst : base.toNat / pageSize = first)
    (hfits : base.toNat + pageSize * n ≤ 2 ^ 32) : ∀ (k : ℕ) {s : Vm}, k ≤ n →
    Requested d first (n - k) s₀ s →
    wp (mapUserPages d base pAddr n k) (fun r s' => r < 0 ∨ r = 0 ∧ Requested d first n s₀ s')
      (fun _ _ => True) s := by
  intro k
  induction k with
  | zero => exact fun _ h => .inr ⟨rfl, h⟩
  | succ k ih =>
      intro s hk h
      have hi : n - (k + 1) < n := by omega
      have hsucc : n - (k + 1) + 1 = n - k := by omega
      have hmul : pageSize * (n - (k + 1)) < pageSize * n :=
        Nat.mul_lt_mul_of_pos_left hi FrameManager.pageSize_pos
      have haddr : (base + UInt32.ofNat (pageSize * (n - (k + 1)))).toNat =
          base.toNat + pageSize * (n - (k + 1)) := by
        rw [toNat_add_page, Nat.mod_eq_of_lt (by omega)]
      have hpage : (base.toNat + pageSize * (n - (k + 1))) / pageSize = first + (n - (k + 1)) := by
        rw [Nat.add_mul_div_left _ _ FrameManager.pageSize_pos, hfirst]
      rw [mapUserPages, wp_bind, haddr]
      refine wp_imp (h.succ (by omega) hpage) fun c s₁ hpost => ?_
      rw [wp_ite]
      refine ⟨fun _ => .inl (by decide), fun hneg => ?_⟩
      obtain ⟨-, h₁⟩ := hpost.resolve_left hneg
      exact ih (by omega) (hsucc ▸ h₁)

/-! ### The commit -/

/-- A word of a new page is at the place of the page `w`, present slot or not. -/
def HoldsNew (d w : ℕ) (s : Vm) : Prop :=
  NewPte (s.pt (s.table d (w / numEntries)) (w % numEntries))

/-- A write of such a word: no place loses one. -/
lemma holdsNew_write {t i x w : ℕ} (hx : NewPte x)
    (h : HoldsNew d w s ∨ s.table d (w / numEntries) = t ∧ w % numEntries = i) :
    HoldsNew d w { s with pt := Function.update s.pt t (Function.update (s.pt t) i x) } := by
  rw [HoldsNew]
  change NewPte (Function.update s.pt t _ (s.table d (w / numEntries)) (w % numEntries))
  by_cases hplace : s.table d (w / numEntries) = t ∧ w % numEntries = i
  · rwa [hplace.1, hplace.2, Function.update_self, Function.update_self]
  · have hold : HoldsNew d w s := h.resolve_right hplace
    by_cases htab : s.table d (w / numEntries) = t
    · rw [← htab, Function.update_self, Function.update_of_ne fun hi => hplace ⟨htab, hi⟩]
      exact hold
    · rwa [Function.update_of_ne htab]

/-- The words that are written are all words of new pages, so that no write undoes another. -/
lemma commitTasks_holdsNew : ∀ (tasks : List MappingTask) {s : Vm},
    (∀ t ∈ tasks, t.vAddr < 2 ^ 32 ∧ NewPte t.pte) →
    wp (commitTasks d tasks) (fun _ s' => s'.dirs = s.dirs ∧
      ∀ w, (HoldsNew d w s ∨ ∃ t ∈ tasks, t.About w) → HoldsNew d w s') (fun _ _ => True) s := by
  intro tasks
  induction tasks with
  | nil =>
      refine fun {s} _ => ⟨rfl, fun w hw => hw.resolve_right ?_⟩
      simp
  | cons t tasks ih =>
      intro s hall
      obtain ⟨hv, hnew⟩ := hall t (.head _)
      rw [commitTasks, wp_bind, wp_entry, wp_bind, wp_setPte]
      have hstep : ∀ w, HoldsNew d w s ∨ t.About w → HoldsNew d w _ := fun w hw =>
        holdsNew_write hnew (hw.imp id fun hab => by
          rw [← hab, ← pdeIndex_eq hv, ← pteIndex_eq]
          exact ⟨rfl, rfl⟩)
      refine wp_imp (ih fun u hu => hall u (.tail _ hu)) fun _ s₂ hpost => ?_
      refine ⟨hpost.1, fun w hw => hpost.2 w ?_⟩
      rcases hw with hw | ⟨u, hu, hab⟩
      · exact .inl (hstep w (.inl hw))
      · rcases List.mem_cons.mp hu with rfl | hu
        · exact .inl (hstep w (.inr hab))
        · exact .inr ⟨u, hu, hab⟩

/-! ### The call -/

/-- What the call leaves when it succeeds: slots that were present are as before, those that
were not grant what is asked for, and so do the entries of the pages. -/
structure Obtained (d first n : ℕ) (s₀ s : Vm) : Prop where
  old : ∀ {j}, entryPresent (s₀.dirs d j) = true → s.dirs d j = s₀.dirs d j
  new : ∀ w, first ≤ w → w < first + n → entryPresent (s₀.dirs d (w / numEntries)) = false →
    Grants (s.dirs d (w / numEntries))
  pages : ∀ w, first ≤ w → w < first + n → ∃ u, s.pageEntry d w = some u ∧ Grants u

/-- The commit of all the pages. -/
lemma Requested.commit {n : ℕ} (h : Requested d first n s₀ s) :
    wp (pdCommitMapping d) (fun _ s' => Obtained d first n s₀ s') (fun _ _ => True) s := by
  rw [pdCommitMapping, wp_bind, wp_gets, wp_bind]
  refine wp_imp (commitTasks_holdsNew _ h.entries) fun _ s₁ hpost => ?_
  obtain ⟨hd₁, hnew₁⟩ := hpost
  rw [wp_bind, wp_gets, wp_setPd]
  set s₂ : Vm := { s₁ with pds := Function.update s₁.pds d { s₁.pds d with
    mappingTasks := [], batchEnabled := false, idle := fun _ => rfl } }
  have hdirs : ∀ j, s₂.dirs d j = s.dirs d j := by
    intro j
    rw [← hd₁]
    simp [s₂, Vm.dirs]
  refine ⟨fun hj => by rw [hdirs, h.old hj], fun w h1 h2 habs => ?_, fun w h1 h2 => ?_⟩
  · rw [hdirs]
    exact h.new habs (h.slots w h1 h2)
  · have hholds : HoldsNew d w s₁ := hnew₁ w (.inr (h.tasks w h1 h2))
    have htable : s₂.table d (w / numEntries) = s₁.table d (w / numEntries) := by
      rw [Vm.table, Vm.table, hdirs, hd₁]
    have hslot : entryPresent (s₂.dirs d (w / numEntries)) = true := by
      rw [hdirs]
      exact h.slots w h1 h2
    have hword : s₂.word d w = some (s₁.pt (s₁.table d (w / numEntries)) (w % numEntries)) := by
      rw [Vm.word_of_present hslot, htable]
    exact ⟨_, Vm.pageEntry_of_word hword hholds.1, hholds.2⟩

/-- **`vmm_new_user_page` in any state.** -/
lemma vmmNewUserPage_obtained (d : ℕ) (base numPages : UInt32) (s : Vm) :
    wp (vmmNewUserPage d base numPages) (fun r s' => r = 0 →
      base.toNat + pageSize * numPages.toNat ≤ 2 ^ 32 ∧
        Obtained d (base.toNat / pageSize) numPages.toNat s s') (fun _ _ => True) s := by
  -- nothing is said of a call that fails
  have hfail : ∀ {c : ℤ} {P : Prop}, c < 0 → c = 0 → P := fun hc h0 => absurd h0 (ne_of_lt hc)
  rw [vmmNewUserPage, wp_ite]
  refine ⟨fun _ => hfail (by decide), fun hnum => ?_⟩
  obtain ⟨hpos, hmax⟩ := (newPages_count numPages).mp hnum
  rw [wp_ite]
  refine ⟨fun _ => hfail (by decide), fun hover => ?_⟩
  have hfits := (newPages_range hpos hmax).mp hover
  rw [wp_bind]
  refine wp_mono (anyMapped_same d _ _ s) (fun b s₀ hs₀ => ?_) fun _ _ _ => trivial
  obtain rfl : s₀ = s := hs₀
  rw [wp_ite]
  refine ⟨fun _ => hfail (by decide), fun _ => ?_⟩
  -- the frame is got, and no page table is touched by that
  refine withFrame_space d _ (fun _ => hfail (by decide)) (fun _ => hfail (by decide))
    fun pAddr s₁ hsp => ?_
  rw [wp_bind, pdBeginMapping, wp_bind, wp_gets, wp_ite]
  constructor
  · -- a batch is under way
    intro _
    rw [wp_pure, wp_ite]
    refine ⟨fun _ => ?_, fun hno => absurd (by decide) hno⟩
    rw [wp_bind]
    exact wp_any _ (fun _ _ => hfail (by decide)) fun _ _ => trivial
  intro hoff
  rw [wp_bind, wp_setPd, wp_pure, wp_ite]
  refine ⟨fun hneg => absurd hneg (lt_irrefl 0), fun _ => ?_⟩
  set s₂ : Vm := { s₁ with
    pds := Function.update s₁.pds d { s₁.pds d with batchEnabled := true, idle := by simp } }
  have hempty : (s₂.pds d).mappingTasks = [] := by
    simpa [s₂] using (s₁.pds d).idle (by simpa using hoff)
  have hdirs : ∀ j, s₂.dirs d j = s₀.dirs d j := by
    intro j
    rw [← hsp.dirs]
    simp [s₂, Vm.dirs]
  -- before the loop nothing has been asked for
  have hstart : Requested d (base.toNat / pageSize) (numPages.toNat - numPages.toNat) s₀ s₂ := by
    refine ⟨by simp [s₂], fun _ => hdirs _, fun habs hpre => ?_, fun w h1 h2 => ?_,
      fun w h1 h2 => ?_,
      by simp [hempty]⟩
    · rw [hdirs, habs] at hpre
      exact absurd hpre Bool.false_ne_true
    · omega
    · omega
  rw [wp_bind]
  refine wp_imp (mapUserPages_requested rfl hfits _ le_rfl hstart) fun r s₃ hpost => ?_
  rw [wp_ite]
  constructor
  -- a mapping has failed: what undoes it does not matter
  · intro hneg
    rw [wp_bind]
    refine wp_any _ (fun _ s₄ => ?_) fun _ _ => trivial
    rw [wp_bind]
    refine wp_any _ (fun _ s₅ => ?_) fun _ _ => trivial
    rw [wp_bind]
    exact wp_any _ (fun _ _ => hfail hneg) fun _ _ => trivial
  · intro hneg
    obtain ⟨-, h₃⟩ := hpost.resolve_left hneg
    rw [wp_bind]
    exact wp_imp h₃.commit fun _ s₄ h₄ _ => ⟨hfits, h₄⟩

/-- One page of a request: what its directory entry must grant. -/
lemma usable_page {w u : ℕ} (hw : pageSize * w < 2 ^ 32) (hread : s.pageEntry d w = some u)
    (hu : Grants u) : (pdGetPermissions d (pageSize * w) s).1 = .ok (.ok (privUser, accRw)) ↔
      Grants (s.dirs d (w / numEntries)) := by
  have hdiv : pageSize * w / pageSize = w := Nat.mul_div_cancel_left _ FrameManager.pageSize_pos
  obtain ⟨p, acc, hrun, hp, hacc⟩ := pdGetPermissions_eq hw (by rwa [hdiv])
  rw [hdiv, hu.1] at hp
  rw [hdiv, hu.2] at hacc
  simp only [and_true] at hp hacc
  rw [hrun, Except.ok.injEq, Except.ok.injEq, Prod.mk.injEq]
  constructor
  · rintro ⟨rfl, rfl⟩
    exact ⟨hp.mp rfl, (hacc rfl).mp rfl⟩
  · rintro ⟨h2, h1⟩
    have hpriv := hp.mpr h2
    exact ⟨hpriv, (hacc hpriv).mpr h1⟩

/-- **When new pages are usable**, after any call that succeeds: the directory entries that are
there before it grant user mode and write access. -/
theorem usable_iff (hrun : vmmNewUserPage d base numPages s = (.ok 0, s')) :
    Usable d base numPages s' ↔ SlotsGrant d base numPages s := by
  obtain ⟨hfits, hob⟩ := wp_ok (vmmNewUserPage_obtained d base numPages s) hrun rfl
  refine forall_congr' fun w => forall_congr' fun h1 => forall_congr' fun h2 => ?_
  obtain ⟨u, hread, hu⟩ := hob.pages w h1 h2
  have hw : pageSize * w < 2 ^ 32 := by
    have hmul := Nat.div_mul_le_self base.toNat pageSize
    simp only [pageSize] at *
    omega
  rw [usable_page hw hread hu]
  cases hpre : entryPresent (s.dirs d (w / numEntries)) with
  | true => simp [hob.old hpre]
  | false => simp [hob.new w h1 h2 hpre]

/-! ### New pages next to a program -/

/-- Answers of the heap for one page in a page table that is there. -/
def oneAnswers : List (Option ℕ) := [some 0x90a0, some 0x90b0, some 0x90c0, some 0x90d0]

/-- A program is loaded, and then it asks for the page at `base`. -/
def loadThenPage (start base : UInt32) : Except Fault ℤ × Vm :=
  vmmNewUserPage 0 base 1
    ((vmmMapSections 0 (textAndData start) (0, 0) bootForTwoTables).2.withHeap oneAnswers)

/-- Both calls succeed. -/
lemma loadThenPage_runs (start base : UInt32)
    (hload : (vmmMapSections 0 (textAndData start) (0, 0) bootForTwoTables).1.toOption = some 0)
    (hpage : (loadThenPage start base).1.toOption = some 0) :
    ∃ s s', vmmMapSections 0 (textAndData start) (0, 0) bootForTwoTables = (.ok 0, s) ∧
      vmmNewUserPage 0 base 1 (s.withHeap oneAnswers) = (.ok 0, s') ∧
      s' = (loadThenPage start base).2 := by
  obtain ⟨s, hs⟩ := run_of_toOption hload
  obtain ⟨s', hs'⟩ := run_of_toOption hpage
  refine ⟨s, s', hs, ?_, by rw [loadThenPage, hs']⟩
  rw [hs] at hs'
  exact hs'

/-- Without a gap between the sections the page after the data is usable. -/
theorem usable_iff_adjacent : ∃ s s',
    vmmMapSections 0 (textAndData 0x1400000) (0, 0) bootForTwoTables = (.ok 0, s) ∧
      vmmNewUserPage 0 0x1401000 1 (s.withHeap oneAnswers) = (.ok 0, s') ∧
      Usable 0 0x1401000 1 s' := by
  have hdir : (vmmMapSections 0 (textAndData 0x1400000) (0, 0) bootForTwoTables).2.dirs 0 5 =
      0x6007 := by decide +kernel
  obtain ⟨s, s', hload, hpage, -⟩ := loadThenPage_runs 0x1400000 0x1401000
    (by decide +kernel) (by decide +kernel)
  rw [hload] at hdir
  refine ⟨s, s', hload, hpage, (usable_iff hpage).mpr (slotsGrant_one.mpr fun _ => ?_)⟩
  change Grants (s.dirs 0 5)
  rw [hdir]
  decide

/-- **After a gap of one page at the start of their range, new pages cannot be written.** -/
theorem not_usable_gap : ∃ s s',
    vmmMapSections 0 (textAndData 0x1401000) (0, 0) bootForTwoTables = (.ok 0, s) ∧
      vmmNewUserPage 0 0x1402000 1 (s.withHeap oneAnswers) = (.ok 0, s') ∧
      ¬ Usable 0 0x1402000 1 s' := by
  have hperm : (pdGetPermissions 0 0x1402000 (loadThenPage 0x1401000 0x1402000).2).1.toOption.bind
      Except.toOption = some (1, 0) := by decide +kernel
  obtain ⟨s, s', hload, hpage, hs'⟩ := loadThenPage_runs 0x1401000 0x1402000
    (by decide +kernel) (by decide +kernel)
  rw [← hs'] at hperm
  refine ⟨s, s', hload, hpage, fun h => ?_⟩
  have hpriv : (pdGetPermissions 0 (pageSize * 0x1402) s').1 = .ok (.ok (privUser, accRw)) :=
    h 0x1402 (by decide) (by decide)
  have haddr : pageSize * 0x1402 = 0x1402000 := by decide
  rw [haddr] at hpriv
  rw [hpriv] at hperm
  exact absurd hperm (by decide)

end ShrekOS
