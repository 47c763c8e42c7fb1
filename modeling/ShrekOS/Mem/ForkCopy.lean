/-
What `pd_deep_copy` makes of the page tables, when the heap always answers.

* `ptCopy_spec`: the copy of a page table has the pages of the source, in order, at
  the physical pages from the next one on;
* `Copied`: the copy up to a slot: the `r`-th mapped user page of the source is at the
  `r`-th page of the frame;
* `Cloned`: the same, exactly; `Cloned.skip`, `Cloned.add`: its moves;
* `pdDeepCopy_cloned`, `pdDeepCopy_copied`: **the whole copy**.
-/
import ShrekOS.Mem.UserMap

namespace ShrekOS

open Kit Kit.Cmd Vm

variable {s : Vm} {new old base : ℕ}

/-! ### One page table -/

/-- The address of the page of the frame at `base` that comes after `k` pages. -/
def nthPage (base k : ℕ) : ℕ := (base + pageSize * k) % 2 ^ 32

lemma nthPage_succ (base k : ℕ) : (nthPage base k + pageSize) % 2 ^ 32 = nthPage base (k + 1) := by
  simp only [nthPage, pageSize]
  omega

lemma nthPage_add (base j k : ℕ) : nthPage (base + pageSize * j) k = nthPage base (j + k) := by
  rw [nthPage, nthPage, mul_add, add_assoc]

lemma nthPage_mod (hb : base % pageSize = 0) (k : ℕ) : nthPage base k % pageSize = 0 := by
  simp only [nthPage, pageSize] at *
  omega

/-- The entry of the copy that comes after `k` copied pages. -/
def copiedPte (base k v : ℕ) : ℕ := addFlags (nthPage base k) (extractFlags v)

/-- `pt_copy` over the last `k` entries: from the entry `numEntries - k` on the new
table gets the present entries of the old one, with the next physical pages. -/
lemma ptCopy_spec {P : ℕ → Prop} [DecidablePred P] (hne : new ≠ old) : ∀ (k : ℕ) {s : Vm},
    k ≤ numEntries → Generous s →
    (∀ j < numEntries, P j ↔ entryPresent (s.pt old j) = true) →
    wp (ptCopy new old k (nthPage base (Nat.count P (numEntries - k))))
      (fun r s' => r = nthPage base (Nat.count P numEntries) ∧ Generous s' ∧
        (∃ heap, s' = { s with heap := heap, pt := Function.update s.pt new (s'.pt new) }) ∧
        (∀ j < numEntries - k, s'.pt new j = s.pt new j) ∧
        ∀ j, numEntries - k ≤ j → j < numEntries → s'.pt new j =
          if P j then copiedPte base (Nat.count P j) (s.pt old j) else s.pt new j)
      (fun e _ => Halts e) s := by
  -- by induction on the entries left, with the number of those copied so far as a rank
  intro k
  induction k with
  | zero =>
      intro s _ hg _
      exact ⟨rfl, hg, ⟨s.heap, by simp⟩, fun _ _ => rfl, fun j h1 h2 => absurd h2 (by omega)⟩
  | succ k ih =>
      intro s hk hg hP
      have hi : numEntries - (k + 1) < numEntries := by omega
      have hsucc : numEntries - k = numEntries - (k + 1) + 1 := by omega
      rw [ptCopy, wp_bind, wp_pte, wp_ite]
      constructor
      · -- a present entry is copied to the next physical page
        intro hpre
        have hPi : P (numEntries - (k + 1)) := (hP _ hi).mpr hpre
        rw [wp_bind]
        refine malloc_generous hg fun rs hrs => ?_
        rw [wp_ite]
        refine ⟨fun hc => absurd hc (by simp), fun _ => ?_⟩
        rw [wp_bind, wp_setPte, nthPage_succ]
        set i := numEntries - (k + 1) with hidef
        set s₁ : Vm := { s with
          heap := rs
          pt := Function.update s.pt new (Function.update (s.pt new) i
            (addFlags (nthPage base (Nat.count P i)) (extractFlags (s.pt old i)))) } with hs₁
        have hold : s₁.pt old = s.pt old := Function.update_of_ne (Ne.symm hne) _ _
        have hcount : Nat.count P i + 1 = Nat.count P (numEntries - k) := by
          rw [hsucc, Nat.count_succ, if_pos hPi]
        rw [hcount]
        refine wp_imp (ih (s := s₁) (by omega) hrs fun j hj => by rw [hold]; exact hP j hj)
          fun r s₂ ⟨hr, hg₂, ⟨heap, hs₂⟩, hlow, hhigh⟩ => ?_
        refine ⟨hr, hg₂, ⟨heap, ?_⟩, fun j hj => ?_, fun j h1 h2 => ?_⟩
        · rw [hs₂]
          simp [hs₁]
        · rw [hlow j (by omega)]
          simp [hs₁, Function.update_of_ne (show j ≠ i by omega)]
        · by_cases hj : j = i
          · rw [hlow j (by omega), hj, if_pos hPi]
            simp [hs₁, copiedPte]
          · rw [hhigh j (by omega) h2, hold]
            simp [hs₁, Function.update_of_ne hj]
      -- an absent entry is passed over, and the rank stays
      · intro hpre
        have hPi : ¬ P (numEntries - (k + 1)) := fun h => hpre ((hP _ hi).mp h)
        have hcount : Nat.count P (numEntries - (k + 1)) = Nat.count P (numEntries - k) := by
          rw [hsucc, Nat.count_succ, if_neg hPi, add_zero]
        rw [hcount]
        refine wp_imp (ih (by omega) hg hP) fun r s₂ ⟨hr, hg₂, hs₂, hlow, hhigh⟩ => ?_
        refine ⟨hr, hg₂, hs₂, fun j hj => hlow j (by omega), fun j h1 h2 => ?_⟩
        by_cases hj : j = numEntries - (k + 1)
        · rw [hlow j (by omega), hj, if_neg hPi]
        · exact hhigh j (by omega) h2

/-! ### All page tables -/

/-- The user page `w` of the directory `src` is mapped in `s₀`. -/
def Mapped (s₀ : Vm) (src w : ℕ) : Prop := (s₀.userMap src w).isSome = true

instance (s₀ : Vm) (src : ℕ) : DecidablePred (Mapped s₀ src) := fun _ =>
  inferInstanceAs (Decidable (_ = true))

/-- The number of mapped user pages of `src` below `w`. -/
def rank (s₀ : Vm) (src w : ℕ) : ℕ := Nat.count (Mapped s₀ src) w

/-- The copy of `src` to `dest` and the frame at `base`, begun in `s₀`, up to the
slot `i`. -/
structure Copied (dest src base : ℕ) (s₀ : Vm) (i : ℕ) (s : Vm) : Prop where
  settled : Settled s
  kept : ∀ {t}, s₀.live t = true → s.live t = true ∧ s.pt t = s₀.pt t
  ahead : ∀ {e j}, i ≤ j → s.dirs e j = s₀.dirs e j
  map : ∀ {e w p}, s.userMap e w = some p → s₀.userMap e w = some p ∨
    (e = dest ∧ Mapped s₀ src w ∧ p = nthPage base (rank s₀ src w))

variable {s₀ : Vm} {dest src i : ℕ}

lemma slot_div {j : ℕ} (hj : j < numEntries) : (numEntries * i + j) / numEntries = i := by
  rw [Nat.mul_add_div (by decide), Nat.div_eq_of_lt hj, add_zero]

lemma slot_mod {j : ℕ} (hj : j < numEntries) : (numEntries * i + j) % numEntries = j := by
  rw [Nat.mul_add_mod, Nat.mod_eq_of_lt hj]

lemma mapped_iff {w : ℕ} (hw : UserPage w) : Mapped s₀ src w ↔
    entryPresent (s₀.dirs src (w / numEntries)) = true ∧
      entryPresent (s₀.pt (removeFlags (s₀.dirs src (w / numEntries))) (w % numEntries)) =
        true := by
  rw [Mapped, userMap, if_pos hw, Option.isSome_map, Vm.pageEntry, ShrekOS.pageEntry]
  split_ifs with h
  · simp [h]
  · simp [h]

/-- The pages of a slot. -/
lemma mapped_slot {j : ℕ} (h4 : numKernelPde ≤ i) (hi : i < numEntries) (hj : j < numEntries) :
    Mapped s₀ src (numEntries * i + j) ↔ entryPresent (s₀.dirs src i) = true ∧
      entryPresent (s₀.pt (removeFlags (s₀.dirs src i)) j) = true := by
  have hw : UserPage (numEntries * i + j) := by
    rw [UserPage, slot_div hj]
    exact ⟨h4, hi⟩
  rw [mapped_iff hw, slot_div hj, slot_mod hj]

lemma rank_add (s₀ : Vm) (src w k : ℕ) : rank s₀ src (w + k) =
    rank s₀ src w + Nat.count (fun j => Mapped s₀ src (w + j)) k := Nat.count_add _ _ _

/-- A slot that is not present has no mapped pages. -/
lemma rank_absent (h4 : numKernelPde ≤ i) (hi : i < numEntries)
    (hpre : ¬ entryPresent (s₀.dirs src i) = true) :
    rank s₀ src (numEntries * (i + 1)) = rank s₀ src (numEntries * i) := by
  rw [mul_add, mul_one, rank_add, Nat.add_eq_left, Nat.count_iff_forall_not]
  intro j hj hm
  exact hpre ((mapped_slot h4 hi hj).mp hm).1

/-- **`pt_copy`** of a slot: the mapped pages of the slot get the next pages of the frame. -/
lemma ptCopy_slot (h4 : numKernelPde ≤ i) (hi : i < numEntries)
    (hpre : entryPresent (s₀.dirs src i) = true) (hne : new ≠ removeFlags (s₀.dirs src i))
    (hg : Generous s) (hpt : s.pt (removeFlags (s₀.dirs src i)) =
      s₀.pt (removeFlags (s₀.dirs src i))) :
    wp (ptCopy new (removeFlags (s₀.dirs src i)) numEntries
        (nthPage base (rank s₀ src (numEntries * i))))
      (fun r s' => r = nthPage base (rank s₀ src (numEntries * (i + 1))) ∧ Generous s' ∧
        (∃ heap, s' = { s with heap := heap, pt := Function.update s.pt new (s'.pt new) }) ∧
        ∀ j < numEntries, s'.pt new j = if Mapped s₀ src (numEntries * i + j) then
          copiedPte base (rank s₀ src (numEntries * i + j))
            (s₀.pt (removeFlags (s₀.dirs src i)) j) else s.pt new j)
      (fun e _ => Halts e) s := by
  have hP : ∀ j < numEntries, Mapped s₀ src (numEntries * i + j) ↔
      entryPresent (s.pt (removeFlags (s₀.dirs src i)) j) = true := by
    intro j hj
    rw [hpt, mapped_slot h4 hi hj]
    simp [hpre]
  -- the page that is next for this slot, and for the one after
  have hstart : nthPage base (rank s₀ src (numEntries * i)) =
      nthPage (base + pageSize * rank s₀ src (numEntries * i))
        (Nat.count (fun j => Mapped s₀ src (numEntries * i + j)) (numEntries - numEntries)) := by
    rw [nthPage_add, Nat.sub_self, Nat.count_zero, add_zero]
  rw [hstart]
  refine wp_imp (ptCopy_spec hne numEntries le_rfl hg hP)
    fun r s₂ ⟨hr, hg₂, hs₂, _, hnew⟩ => ⟨?_, hg₂, hs₂, fun j hj => ?_⟩
  · rw [hr, nthPage_add, ← rank_add, mul_add, mul_one]
  · rw [hnew j (by omega) hj, hpt, rank_add, copiedPte, copiedPte, nthPage_add]

/-- The copy of `src` to `dest` up to the slot `i`, exactly: the slots that are present
got new page tables with the same flags, and nothing else changed. -/
structure Cloned (dest src base : ℕ) (s₀ : Vm) (i : ℕ) (s : Vm) : Prop extends
    Copied dest src base s₀ i s where
  others : ∀ {e j}, e ≠ dest ∨ j < numKernelPde ∨ i ≤ j ∨ ¬ entryPresent (s₀.dirs src j) = true →
    s.dirs e j = s₀.dirs e j
  flags : ∀ {j}, numKernelPde ≤ j → j < i → entryPresent (s₀.dirs src j) = true →
    extractFlags (s.dirs dest j) = extractFlags (s₀.dirs src j)
  entries : ∀ {j k}, numKernelPde ≤ j → j < i → entryPresent (s₀.dirs src j) = true →
    k < numEntries → s.pt (removeFlags (s.dirs dest j)) k =
      if Mapped s₀ src (numEntries * j + k) then
        copiedPte base (rank s₀ src (numEntries * j + k)) (s₀.pt (removeFlags (s₀.dirs src j)) k)
      else 0

namespace Cloned

/-- A slot of the source that is not present is passed over. -/
lemma skip (h : Cloned dest src base s₀ i s) (hpre : ¬ entryPresent (s₀.dirs src i) = true) :
    Cloned dest src base s₀ (i + 1) s := by
  -- a slot that is present and not above `i` lies below it
  have hlt : ∀ {j}, j < i + 1 → entryPresent (s₀.dirs src j) = true → j < i := by
    intro j hj hp
    refine lt_of_le_of_ne (Nat.lt_succ_iff.mp hj) ?_
    rintro rfl
    exact hpre hp
  refine ⟨⟨h.settled, h.kept, fun hj => h.ahead (by omega), h.map⟩, fun {e j} hj => ?_,
    fun h4 hj hp => h.flags h4 (hlt hj hp) hp, fun h4 hj hp hk => h.entries h4 (hlt hj hp) hp hk⟩
  refine h.others ?_
  rcases hj with hj | hj | hj | hj
  · exact .inl hj
  · exact .inr (.inl hj)
  · exact .inr (.inr (.inl (by omega)))
  · exact .inr (.inr (.inr hj))

/-- A slot of the source that is present gets a new page table in the copy. -/
lemma add {s' : Vm} {a : ℕ} (h : Cloned dest src base s₀ i s) (h4 : numKernelPde ≤ i)
    (hi : i < numEntries) (hpre : entryPresent (s₀.dirs src i) = true)
    (hal : a % pageSize = 0) (hfree : s.live a = false) (hbase : base % pageSize = 0)
    (hgen : Generous s') (hlive : s'.live = Function.update s.live a true)
    (hidle : ∀ e, (s'.pds e).batchEnabled = (s.pds e).batchEnabled)
    (hdirs : ∀ e j, s'.dirs e j =
      if e = dest ∧ j = i then addFlags a (extractFlags (s₀.dirs src i)) else s.dirs e j)
    (hpt : ∀ t, t ≠ a → s'.pt t = s.pt t)
    (hnew : ∀ j < numEntries, s'.pt a j = if Mapped s₀ src (numEntries * i + j) then
      copiedPte base (rank s₀ src (numEntries * i + j))
        (s₀.pt (removeFlags (s₀.dirs src i)) j) else 0) :
    Cloned dest src base s₀ (i + 1) s' := by
  have hrem : removeFlags (addFlags a (extractFlags (s₀.dirs src i))) = a :=
    removeFlags_addFlags hal (extractFlags_lt _)
  -- the tables of the slots below are in use, so they are not the new one
  have hbelow : ∀ {j}, numKernelPde ≤ j → j < i → entryPresent (s₀.dirs src j) = true →
      s'.dirs dest j = s.dirs dest j ∧
        s'.pt (removeFlags (s.dirs dest j)) = s.pt (removeFlags (s.dirs dest j)) := by
    intro j hj4 hj hp
    have hpre' : entryPresent (s.dirs dest j) = true := by
      rw [← entryPresent_extractFlags, h.flags hj4 hj hp, entryPresent_extractFlags, hp]
    have hlive' := h.settled.tables.live (hj.trans hi) (ne_zero_of_present hpre')
    refine ⟨by rw [hdirs, if_neg (by omega)], hpt _ ?_⟩
    intro heq
    rw [heq, hfree] at hlive'
    simp at hlive'
  have hslot : s'.dirs dest i = addFlags a (extractFlags (s₀.dirs src i)) := by
    rw [hdirs, if_pos ⟨rfl, rfl⟩]
  have hcases : ∀ {j}, j < i + 1 → j < i ∨ j = i := fun hj => by omega
  refine ⟨⟨⟨?_, hgen, fun e => by rw [hidle, h.settled.idle]⟩, ?_, ?_, ?_⟩, fun {e j} hj => ?_,
    fun {j} hj4 hj hp => ?_, fun {j k} hj4 hj hp hk => ?_⟩
  · exact h.settled.tables.put hfree hrem h4 hdirs hlive
  · intro t ht
    obtain ⟨hl, hp⟩ := h.kept ht
    have hne : t ≠ a := by
      rintro rfl
      simp [hfree] at hl
    rw [hlive, Function.update_of_ne hne, hpt t hne]
    exact ⟨hl, hp⟩
  · intro e j hj
    rw [hdirs, if_neg (by omega), h.ahead (by omega)]
  · intro e w p hw
    by_cases hslot : e = dest ∧ w / numEntries = i
    · -- a page of the new table
      obtain ⟨rfl, rfl⟩ := hslot
      obtain ⟨hu, v, hv, rfl⟩ := userMap_eq_some.mp hw
      have hj : w % numEntries < numEntries := Nat.mod_lt _ (by decide)
      obtain ⟨-, hpv, hval⟩ := pageEntry_eq_some.mp hv
      rw [hdirs, if_pos ⟨rfl, rfl⟩, hrem, hnew _ hj, Nat.div_add_mod] at hval
      split_ifs at hval with hm
      · refine .inr ⟨rfl, hm, ?_⟩
        rw [← hval, copiedPte, removeFlags_addFlags (nthPage_mod hbase _) (extractFlags_lt _)]
      · rw [← hval] at hpv
        simp at hpv
    · refine h.map ?_
      rw [← hw, userMap, userMap]
      split_ifs with hu
      · have hd : s'.dirs e (w / numEntries) = s.dirs e (w / numEntries) := by
          rw [hdirs, if_neg hslot]
        have hsame : s'.pageEntry e w = s.pageEntry e w := by
          refine pageEntry_congr hd fun hp => ?_
          have hne : removeFlags (s.dirs e (w / numEntries)) ≠ a := by
            intro heq
            have := h.settled.tables.live hu.2 (ne_zero_of_present hp)
            rw [heq, hfree] at this
            simp at this
          rw [hpt _ hne]
        rw [hsame]
      · rfl
  · rw [hdirs, if_neg ?_]
    · refine h.others ?_
      rcases hj with hj | hj | hj | hj
      · exact .inl hj
      · exact .inr (.inl hj)
      · exact .inr (.inr (.inl (by omega)))
      · exact .inr (.inr (.inr hj))
    · rintro ⟨rfl, rfl⟩
      rcases hj with hj | hj | hj | hj
      · exact hj rfl
      · omega
      · omega
      · exact hj hpre
  · rcases hcases hj with hlt | rfl
    · rw [(hbelow hj4 hlt hp).1, h.flags hj4 hlt hp]
    · rw [hslot, extractFlags_addFlags hal (extractFlags_lt _)]
  · rcases hcases hj with hlt | rfl
    · rw [(hbelow hj4 hlt hp).1, (hbelow hj4 hlt hp).2, h.entries hj4 hlt hp hk]
    · rw [hslot, hrem, hnew k hk]

end Cloned

/-- The loop of `pd_deep_copy` over the last `k` slots. -/
lemma deepCopyFrom_cloned (hT : Tables s₀.dirs s₀.live) (hbase : base % pageSize = 0) :
    ∀ (k : ℕ) (backup : ℕ → ℕ) {s : Vm}, k ≤ numEntries - numKernelPde →
    Cloned dest src base s₀ (numEntries - k) s →
    wp (deepCopyFrom dest src k (nthPage base (rank s₀ src (numEntries * (numEntries - k)))) backup)
      (fun r s' => r = 0 ∧ Cloned dest src base s₀ numEntries s') (fun e _ => Halts e) s := by
  intro k
  induction k with
  | zero => exact fun _ _ _ h => ⟨rfl, h⟩
  | succ k ih =>
      intro backup s hk h
      set i := numEntries - (k + 1) with hidef
      have h4 : numKernelPde ≤ i := by simp only [numEntries, numKernelPde] at *; omega
      have hi : i < numEntries := by simp only [numEntries] at *; omega
      have hsucc : numEntries - k = i + 1 := by omega
      have hentry : (s.pds src).directory i = s₀.dirs src i := h.ahead le_rfl
      rw [deepCopyFrom, wp_bind, wp_entry]
      rw [← hidef, hentry, wp_ite]
      constructor
      · intro hpre
        rw [wp_bind]
        refine memalign_generous h.settled.generous fun a rs hal hpos hfree hgen => ?_
        dsimp only
        rw [wp_bind, wp_clearTable, wp_bind, wp_entry, wp_bind, wp_setEntry, wp_bind]
        -- the table of the source is in use, so it is not the new one
        have hsrc := h.kept (hT.live hi (ne_zero_of_present hpre))
        have hne : a ≠ removeFlags (s₀.dirs src i) := by
          rintro rfl
          simp [hfree] at hsrc
        set s₁ : Vm := { s with
          pds := Function.update s.pds dest { s.pds dest with
            directory := Function.update (s.pds dest).directory i
              (a ||| extractFlags (s₀.dirs src i)) }
          pt := Function.update s.pt a fun _ => 0
          live := Function.update s.live a true
          heap := rs } with hs₁
        have hdirs : ∀ e j, s₁.dirs e j =
            if e = dest ∧ j = i then addFlags a (extractFlags (s₀.dirs src i)) else s.dirs e j := by
          intro e j
          rw [dirs_of_update (s := s) rfl]
          by_cases he : e = dest
          · subst he
            by_cases hj : j = i
            · simp [hj, addFlags]
            · simp [hj, dirs]
          · simp [he]
        have hpt : s₁.pt (removeFlags (s₀.dirs src i)) = s₀.pt (removeFlags (s₀.dirs src i)) := by
          rw [← hsrc.2]
          exact Function.update_of_ne (Ne.symm hne) _ _
        refine wp_imp (ptCopy_slot (s := s₁) h4 hi hpre hne hgen hpt)
          fun r s₂ hpost => ?_
        obtain ⟨hr, hg₂, ⟨heap, hs₂⟩, hnew⟩ := hpost
        rw [hr, ← hsucc]
        refine ih _ (by omega) ?_
        rw [hsucc]
        refine h.add h4 hi hpre hal hfree hbase hg₂ ?_ ?_ ?_ ?_ ?_
        · rw [hs₂]
        · intro e
          rw [hs₂]
          by_cases he : e = dest
          · subst he
            simp [hs₁]
          · simp [hs₁, Function.update_of_ne he]
        · intro e j
          rw [← hdirs, dirs, dirs, hs₂]
        · intro t ht
          rw [hs₂]
          simp [hs₁, Function.update_of_ne ht]
        · intro j hj
          have hzero : s₁.pt a j = 0 := by simp [hs₁]
          rw [hnew j hj, hzero]
      · intro hpre
        rw [← rank_absent h4 hi hpre, ← hsucc]
        refine ih backup (by omega) ?_
        rw [hsucc]
        exact h.skip hpre

/-- The first page that is copied gets the first page of the frame. -/
lemma nthPage_start (hlt : base < 2 ^ 32) :
    nthPage base (rank s src (numEntries * (numEntries - (numEntries - numKernelPde)))) = base := by
  have hzero : rank s src (numEntries * (numEntries - (numEntries - numKernelPde))) = 0 := by
    rw [rank, Nat.count_iff_forall_not]
    intro w hw hm
    have hu : UserPage w := by
      by_contra hno
      rw [Mapped, userMap, if_neg hno] at hm
      simp at hm
    have := hu.1
    simp only [numEntries, numKernelPde] at *
    omega
  rw [hzero, nthPage, mul_zero, add_zero, Nat.mod_eq_of_lt hlt]

/-- **`pd_deep_copy`**, exactly. -/
theorem pdDeepCopy_cloned (dest src : ℕ) (h : Settled s) (hbase : base % pageSize = 0)
    (hlt : base < 2 ^ 32) (garbage : ℕ → ℕ) :
    wp (pdDeepCopy dest src base garbage)
      (fun r s' => r = 0 ∧ Cloned dest src base s numEntries s') (fun e _ => Halts e) s := by
  rw [pdDeepCopy]
  nth_rewrite 1 [← @nthPage_start s base src hlt]
  exact deepCopyFrom_cloned h.tables hbase _ garbage le_rfl
    ⟨⟨h, fun ht => ⟨ht, rfl⟩, fun _ => rfl, .inl⟩, fun _ => rfl,
      fun h4 hj => absurd hj (by simp only [numEntries, numKernelPde] at *; omega),
      fun h4 hj => absurd hj (by simp only [numEntries, numKernelPde] at *; omega)⟩

/-- **`pd_deep_copy`**: the user pages of the source, in order, get the pages of the
frame, in order. -/
theorem pdDeepCopy_copied (dest src : ℕ) (h : Settled s) (hbase : base % pageSize = 0)
    (hlt : base < 2 ^ 32)
    (garbage : ℕ → ℕ) :
    wp (pdDeepCopy dest src base garbage)
      (fun r s' => r = 0 ∧ Copied dest src base s numEntries s') (fun e _ => Halts e) s :=
  wp_imp (pdDeepCopy_cloned dest src h hbase hlt garbage) fun _ _ ⟨hr, hc⟩ => ⟨hr, hc.toCopied⟩

end ShrekOS
