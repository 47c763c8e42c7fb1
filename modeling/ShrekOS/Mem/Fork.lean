/-
What `vmm_deep_copy` makes, exactly, when the heap always answers.

* `Cloned.copy`, `Cloned.others`: the pages of the copy, and those of every other
  directory;
* `Forked`: a new directory with the pages of another one, in order, in one frame;
* `vmmDeepCopy_forked`: **a copy for `fork`** is that, or has no effect.
-/
import ShrekOS.Mem.UserPages

namespace ShrekOS

open Kit Kit.Cmd Vm

variable {lim dest src base : ℕ} {s s' : Vm}

/-- Nothing is mapped in the user space of the directory, as `pd_init` leaves it. -/
def Empty (d : ℕ) (s : Vm) : Prop := ∀ j, numKernelPde ≤ j → j < numEntries → s.dirs d j = 0

/-- The ranks are about the user pages alone. -/
lemma rank_congr (h : s'.userMap = s.userMap) (src w : ℕ) : rank s' src w = rank s src w := by
  induction w with
  | zero => rfl
  | succ w ih =>
      have hm : Mapped s' src w ↔ Mapped s src w := by rw [Mapped, Mapped, h]
      rw [rank, Nat.count_succ, ← rank, ih, rank, rank, Nat.count_succ]
      simp only [hm]

namespace Cloned

variable {s₀ : Vm}

/-- The other directories keep their pages. -/
lemma keeps (h : Cloned dest src base s₀ numEntries s) (hT : Tables s₀.dirs s₀.live) {e w : ℕ}
    (he : e ≠ dest) (hw : Page w) : s.pageEntry e w = s₀.pageEntry e w := by
  have hdirs : s.dirs e (w / numEntries) = s₀.dirs e (w / numEntries) := h.others (.inl he)
  refine pageEntry_congr hdirs fun hpre => ?_
  rw [(h.kept (hT.live hw (ne_zero_of_present hpre))).2]

/-- The copy has the flags of the slots of the source. -/
lemma slot (h : Cloned dest src base s₀ numEntries s) (hempty : Empty dest s₀) {j : ℕ}
    (h4 : numKernelPde ≤ j) (hj : j < numEntries) :
    extractFlags (s.dirs dest j) =
      if entryPresent (s₀.dirs src j) = true then extractFlags (s₀.dirs src j) else 0 := by
  split_ifs with hpre
  · exact h.flags h4 hj hpre
  · rw [h.others (.inr (.inr (.inr hpre))), hempty j h4 hj]
    rfl

/-- **The pages of the copy**: those of the source, in order, in the frame. -/
lemma copy (h : Cloned dest src base s₀ numEntries s) (hempty : Empty dest s₀)
    (hbase : base % pageSize = 0) {w : ℕ} (hw : UserPage w) :
    s.pageEntry dest w = (s₀.pageEntry src w).map (copiedPte base (rank s₀ src w)) := by
  have hj : w % numEntries < numEntries := Nat.mod_lt _ (by decide)
  have hslot : numEntries * (w / numEntries) + w % numEntries = w := Nat.div_add_mod _ _
  by_cases hpre : entryPresent (s₀.dirs src (w / numEntries)) = true
  · have hentry := h.entries hw.1 hw.2 hpre hj
    rw [hslot] at hentry
    have hdest : entryPresent (s.dirs dest (w / numEntries)) = true := by
      rw [← entryPresent_extractFlags, h.flags hw.1 hw.2 hpre, entryPresent_extractFlags, hpre]
    by_cases hm : Mapped s₀ src w
    · have hpres := ((mapped_iff hw).mp hm).2
      rw [if_pos hm] at hentry
      have hsrc : s₀.pageEntry src w =
          some (s₀.pt (removeFlags (s₀.dirs src (w / numEntries))) (w % numEntries)) :=
        pageEntry_eq_some.mpr ⟨hpre, hpres, rfl⟩
      rw [hsrc, Option.map_some]
      refine pageEntry_eq_some.mpr ⟨hdest, ?_, hentry⟩
      rw [copiedPte, entryPresent_addFlags (nthPage_mod hbase _), entryPresent_extractFlags, hpres]
    · rw [if_neg hm] at hentry
      have hsrc : s₀.pageEntry src w = none := by
        rw [Mapped, userMap, if_pos hw, Option.isSome_map] at hm
        simpa using hm
      rw [hsrc, Option.map_none, Option.eq_none_iff_forall_ne_some]
      intro v hv
      obtain ⟨-, hp, hval⟩ := pageEntry_eq_some.mp hv
      rw [hentry] at hval
      rw [← hval] at hp
      simp at hp
  · have hsrc : s₀.pageEntry src w = none := pageEntry_of_absent ((Bool.not_eq_true _).mp hpre)
    have hdest : s.dirs dest (w / numEntries) = 0 := by
      rw [h.others (.inr (.inr (.inr hpre))), hempty _ hw.1 hw.2]
    rw [hsrc, Option.map_none]
    refine pageEntry_of_absent ?_
    rw [hdest]
    rfl

end Cloned

/-- The directory `dest` has the pages of `src`, in order, in a frame of its own at `a`,
and nothing else changed. -/
structure Forked (lim dest src a : ℕ) (s s' : Vm) : Prop where
  ledger : LedgerInv lim s'
  settled : Settled s'
  others : ∀ {e w}, e ≠ dest → Page w → s'.pageEntry e w = s.pageEntry e w
  copy : ∀ {w}, UserPage w →
    s'.pageEntry dest w = (s.pageEntry src w).map (copiedPte a (rank s src w))
  slots : ∀ {j}, numKernelPde ≤ j → j < numEntries → extractFlags (s'.dirs dest j) =
    if entryPresent (s.dirs src j) = true then extractFlags (s.dirs src j) else 0
  dirs : ∀ {e}, e ≠ dest → s'.dirs e = s.dirs e
  tables : ∀ {b}, s.live b = true → s'.pt b = s.pt b
  aligned : a % pageSize = 0
  le : a + pageSize * s.counts src ≤ 2 ^ 32
  alloc : ∃ fm', fmAlloc (s.counts src) s.fm = (.ok (.ok a), fm')
  vacant : s.extent a = none
  extent : ∃ k, s.counts src ≤ k ∧ s'.extent = Function.update s.extent a (some k)
  lists : s'.lists = Function.update s.lists dest (⟨a, s.counts src⟩ :: s.lists dest)

/-- **`vmm_deep_copy`** to a directory whose user space is empty. -/
theorem vmmDeepCopy_forked (h : LedgerInv lim s) (hs : Settled s) (dest src : ℕ)
    (hempty : Empty dest s) (garbage : ℕ → ℕ) :
    wp (vmmDeepCopy dest src garbage) (fun r s' => (r < 0 ∧ Untouched s s') ∨
      (r = 0 ∧ ∃ a, Forked lim dest src a s s')) (fun e _ => Halts e) s := by
  rw [vmmDeepCopy, wp_bind, wp_gets]
  refine withFrame_granted h hs dest _ _ _
    (fun s₁ _ _ hsp hext hlists hcounts _ => .inl ⟨by simp, fun _ => by rw [hsp.pageEntry], hext,
      hlists, fun e _ => by rw [hcounts]⟩) fun a s₁ hg => ?_
  rw [wp_bind]
  refine wp_imp (wp_and (KeepsLedger.deepCopyFrom dest src _ a garbage s₁)
    (pdDeepCopy_cloned dest src hg.settled hg.aligned hg.lt garbage)) fun r s₂ hpost => ?_
  obtain ⟨hl₂, hr, hc⟩ := hpost
  subst hr
  rw [wp_ite]
  refine ⟨fun hneg => absurd hneg (lt_irrefl 0), fun _ => .inr ⟨rfl, a, ?_⟩⟩
  have hlists : s₂.lists = s₁.lists := congrArg (fun l => l.2.1) hl₂
  have hempty₁ : Empty dest s₁ := fun j h4 hj => by rw [hg.space.dirs, hempty j h4 hj]
  have hext₂ : s₂.extent = s₁.extent := extent_eq (congrArg Prod.fst hl₂) rfl
  refine ⟨hg.ledger.of_eq (congrArg Prod.fst hl₂) hlists, hc.settled, fun he hw => ?_, fun hw => ?_,
    fun h4 hj => ?_, fun he => ?_, fun hb => ?_, hg.aligned, hg.le, hg.alloc, hg.vacant,
    hext₂ ▸ hg.extent, hlists.trans hg.lists⟩
  · rw [hc.keeps hg.settled.tables he hw, hg.space.pageEntry]
  · rw [hc.copy hempty₁ hg.aligned hw, hg.space.pageEntry, rank_congr hg.space.userMap]
  · rw [hc.slot hempty₁ h4 hj, hg.space.dirs]
  · rw [← hg.space.dirs]
    exact funext fun j => hc.others (.inl he)
  · rw [← hg.space.pt]
    exact (hc.kept (hg.space.live ▸ hb)).2

end ShrekOS
