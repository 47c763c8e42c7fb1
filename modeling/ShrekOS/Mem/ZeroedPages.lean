/-
What the pages hold that `vmm_map_sections` and `vmm_new_user_page` map.

* `Store.memset`: `memset` through the page tables of the current process, byte by byte, and
  `memset_spec`: what it leaves in memory;
* `Store.vmmMapSections`, `Store.vmmNewUserPage`: the two calls with their `memset`;
* `vmmNewUserPage_readsZero`: **new pages read as zero**, in every state;
* `vmmMapSections_readsZero_iff`: of the pages of a program only the first quarter is cleared;
* `readsZero_iff`: **when no byte of the frame shows** after one of the calls.

The directory is the one of the current process, as for all callers.
-/
import ShrekOS.Mem.PageCopies
import ShrekOS.Mem.SectionWords

namespace ShrekOS

open Kit Kit.Cmd Vm

/-- The offset of an address in its page. -/
def pageOffset (v : ℕ) : Fin pageSize := ⟨v % pageSize, Nat.mod_lt v FrameManager.pageSize_pos⟩

namespace Store

/-- The byte at a physical place: a page and an offset. -/
def byte (t : Store) (y : ℕ × Fin pageSize) : UInt8 := t.bytes y.1 y.2

/-- A byte is stored at a physical place. -/
def putByte (t : Store) (y : ℕ × Fin pageSize) (x : UInt8) : Store :=
  { t with bytes := Function.update t.bytes y.1 (Function.update (t.bytes y.1) y.2 x) }

@[simp] lemma putByte_vm (t : Store) (y : ℕ × Fin pageSize) (x : UInt8) :
    (t.putByte y x).vm = t.vm := rfl

lemma byte_putByte_self (t : Store) (y : ℕ × Fin pageSize) (x : UInt8) :
    (t.putByte y x).byte y = x := by
  simp [byte, putByte]

lemma byte_putByte_of_ne (t : Store) {y z : ℕ × Fin pageSize} (h : z ≠ y) (x : UInt8) :
    (t.putByte y x).byte z = t.byte z := by
  unfold byte putByte
  dsimp only
  by_cases hp : z.1 = y.1
  · rw [hp, Function.update_self, Function.update_of_ne fun ho => h (Prod.ext hp ho)]
  · rw [Function.update_of_ne hp]

/-- A store of a byte at a virtual address. -/
def setByte (cur vAddr : ℕ) (x : UInt8) : StoreM Unit := do
  let p ← translate cur vAddr
  modify fun t => t.putByte (p, pageOffset vAddr) x

/-- `memset`: the last `n` bytes of a range that ends before `last`. -/
def memset (cur last : ℕ) (x : UInt8) : ℕ → StoreM Unit
  | 0 => pure ()
  | n + 1 => do
      setByte cur (last - (n + 1)) x
      memset cur last x n

/-- A load of a byte at a virtual address. -/
def getByte (cur vAddr : ℕ) : StoreM UInt8 := do
  let p ← translate cur vAddr
  gets fun t => t.bytes p (pageOffset vAddr)

/-- A call of the virtual memory that ends, when it succeeds, with a `memset` to zero of the
`n` bytes before `last`. -/
def clearing (d last n : ℕ) (c : VmM ℤ) : StoreM ℤ := do
  let r ← liftVm c
  if r = 0 then do
    memset d last 0 n
    pure r
  else pure r

/-- `vmm_map_sections`. The last argument of its `memset` is
`num_pages*PAGE_SIZE/sizeof(void*)`. -/
def vmmMapSections (d : ℕ) (secs : List MemSection) (garbage : UInt32 × UInt32) : StoreM ℤ :=
  let low := pageSize * firstPage (loadBounds secs garbage).1
  let len := pageCount (loadBounds secs garbage).1 (loadBounds secs garbage).2 * pageSize / 4
  clearing d (low + len) len (ShrekOS.vmmMapSections d secs garbage)

/-- `vmm_new_user_page`. -/
def vmmNewUserPage (d : ℕ) (base numPages : UInt32) : StoreM ℤ :=
  let len := numPages.toNat * pageSize
  clearing d (base.toNat + len) len (ShrekOS.vmmNewUserPage d base numPages)

/-- The byte at a virtual address reads as zero. -/
def ReadsZero (t : Store) (cur vAddr : ℕ) : Prop := (getByte cur vAddr t).1 = .ok 0

end Store

/-! ### `memset` -/

/-- The physical place that the answer of `pd_get_mapping` gives to an address. -/
def placeOf (v : ℕ) : Except ℤ ℕ → Option (ℕ × Fin pageSize)
  | .ok u => some (removeFlags u, pageOffset v)
  | .error _ => none

/-- The physical place of the byte at a virtual address. -/
def Vm.place (s : Vm) (d v : ℕ) : Option (ℕ × Fin pageSize) :=
  match (pdGetMapping d v s).1 with
  | .ok r => placeOf v r
  | .error _ => none

variable {lim d : ℕ} {s s' : Vm} {t t' : Store} {secs : List MemSection}

/-- Looking an address up changes nothing, and never fails as a command. -/
lemma pdGetMapping_same (s : Vm) (d v : ℕ) :
    ∃ r, pdGetMapping d v s = (.ok r, s) := by
  have h : wp (pdGetMapping d v) (fun _ s' => s' = s) (fun _ _ => False) s := by
    rw [pdGetMapping, wp_bind, wp_entry, wp_ite]
    refine ⟨fun _ => rfl, fun _ => ?_⟩
    rw [wp_bind, wp_pte, wp_ite]
    exact ⟨fun _ => rfl, fun _ => rfl⟩
  obtain ⟨r, s', hrun, rfl⟩ := wp_returns h
  exact ⟨r, hrun⟩

/-- The physical place of an address, from what `pd_get_mapping` returns. -/
lemma place_of_run {r : Except ℤ ℕ} {v : ℕ} (h : pdGetMapping d v s = (.ok r, s)) :
    s.place d v = placeOf v r := by
  rw [Vm.place, h]

/-- An address is translated, or the access is a page fault. -/
lemma wp_translate {v : ℕ} {Q : ℕ → Store → Prop} {E : Fault → Store → Prop}
    (hok : ∀ p, t.vm.place d v = some (p, pageOffset v) → Q p t)
    (herr : t.vm.place d v = none → E (.panic "page fault") t) :
    wp (Store.translate d v) Q E t := by
  obtain ⟨r, hr⟩ := pdGetMapping_same t.vm d v
  have hplace := place_of_run hr
  rw [Store.translate, wp_bind, wp_liftVm]
  unfold wp
  rw [hr]
  cases r with
  | error e => exact herr hplace
  | ok u => exact hok _ hplace

/-- The place is that of one of the `n` addresses before `last`. -/
def Vm.Covers (s : Vm) (d last n : ℕ) (y : ℕ × Fin pageSize) : Prop :=
  ∃ v, last - n ≤ v ∧ v < last ∧ s.place d v = some y

/-- **`memset`**, when it returns: all its addresses are mapped, their bytes are the given
one, and the other bytes are as before. -/
theorem memset_spec (last : ℕ) (x : UInt8) : ∀ (n : ℕ) {t : Store}, n ≤ last →
    wp (Store.memset d last x n) (fun _ t' => t'.vm = t.vm ∧
      (∀ v, last - n ≤ v → v < last → t.vm.place d v ≠ none) ∧
      ∀ y, (t.vm.Covers d last n y → t'.byte y = x) ∧
        (¬ t.vm.Covers d last n y → t'.byte y = t.byte y))
      (fun _ _ => ∃ v, last - n ≤ v ∧ v < last ∧ t.vm.place d v = none) t := by
  intro n
  induction n with
  | zero =>
      refine fun {t} _ => ⟨rfl, fun v h1 h2 => absurd h2 (not_lt.mpr h1),
        fun y => ⟨?_, fun _ => rfl⟩⟩
      rintro ⟨v, h1, h2, -⟩
      omega
  | succ n ih =>
      intro t hle
      rw [Store.memset, wp_bind, Store.setByte, wp_bind]
      refine wp_translate (fun p hp => ?_) fun hnone => ⟨_, le_rfl, by omega, hnone⟩
      rw [wp_modify]
      set y₀ := (p, pageOffset (last - (n + 1)))
      refine wp_mono (ih (t := t.putByte y₀ x) (by omega)) (fun _ t' hpost => ?_) ?_
      · obtain ⟨hvm, hmapped, hbytes⟩ := hpost
        rw [Store.putByte_vm] at hvm hmapped hbytes
        -- the first byte, and then those of the rest
        have hsplit : ∀ y, t.vm.Covers d last (n + 1) y ↔ y = y₀ ∨ t.vm.Covers d last n y := by
          intro y
          constructor
          · rintro ⟨v, h1, h2, h3⟩
            rcases h1.eq_or_lt with rfl | h1
            · exact .inl (Option.some.inj (h3.symm.trans hp))
            · exact .inr ⟨v, by omega, h2, h3⟩
          · rintro (rfl | ⟨v, h1, h2, h3⟩)
            · exact ⟨_, le_rfl, by omega, hp⟩
            · exact ⟨v, by omega, h2, h3⟩
        refine ⟨hvm, fun v h1 h2 => ?_, fun y => ⟨fun hc => ?_, fun hc => ?_⟩⟩
        · rcases h1.eq_or_lt with rfl | h1
          · rw [hp]
            exact Option.some_ne_none _
          · exact hmapped v (by omega) h2
        · by_cases hrest : t.vm.Covers d last n y
          · exact (hbytes y).1 hrest
          · obtain rfl := ((hsplit y).mp hc).resolve_right hrest
            rw [(hbytes y₀).2 hrest, Store.byte_putByte_self]
        · rw [hsplit, not_or] at hc
          rw [(hbytes y).2 hc.2, Store.byte_putByte_of_ne t hc.1]
      · rintro e t' ⟨v, h1, h2, h3⟩
        exact ⟨v, by omega, h2, h3⟩

/-- A byte reads as zero when its place is known and holds zero. -/
lemma readsZero_iff_byte {v : ℕ} :
    t.ReadsZero d v ↔ ∃ y, t.vm.place d v = some y ∧ t.byte y = 0 := by
  have hread : wp (Store.getByte d v)
      (fun x _ => x = 0 ↔ ∃ y, t.vm.place d v = some y ∧ t.byte y = 0)
      (fun _ _ => ¬ ∃ y, t.vm.place d v = some y ∧ t.byte y = 0) t := by
    rw [Store.getByte, wp_bind]
    refine wp_translate (fun p hp => ?_) fun hnone => by simp [hnone]
    rw [wp_gets]
    simp [hp, Store.byte]
  rw [Store.ReadsZero]
  unfold wp at hread
  rcases hrun : Store.getByte d v t with ⟨e | x, t'⟩
  · rw [hrun] at hread
    simp only [reduceCtorEq, false_iff]
    exact hread
  · rw [hrun] at hread
    simp only [Except.ok.injEq]
    exact hread

/-- After a `memset` to zero that returned, its addresses read as zero. -/
lemma readsZero_of_memset {last n v : ℕ} (hn : n ≤ last)
    (hrun : Store.memset d last 0 n t = (.ok (), t')) (h1 : last - n ≤ v) (h2 : v < last) :
    t'.ReadsZero d v := by
  obtain ⟨hvm, hmapped, hbytes⟩ := wp_ok (memset_spec (d := d) last 0 n (t := t) hn) hrun
  obtain ⟨y, hy⟩ := Option.ne_none_iff_exists'.mp (hmapped v h1 h2)
  rw [readsZero_iff_byte, hvm]
  exact ⟨y, hy, (hbytes y).1 ⟨v, h1, h2, hy⟩⟩

/-- A `memset` to addresses that are all mapped returns. -/
lemma memset_returns (last n : ℕ) (x : UInt8) (hn : n ≤ last)
    (hmapped : ∀ v, last - n ≤ v → v < last → t.vm.place d v ≠ none) :
    ∃ t', Store.memset d last x n t = (.ok (), t') := by
  have h : wp (Store.memset d last x n) (fun _ _ => True) (fun _ _ => False) t :=
    wp_mono (memset_spec last x n hn) (fun _ _ _ => trivial) fun _ _ he => by
      obtain ⟨v, h1, h2, hnone⟩ := he
      exact hmapped v h1 h2 hnone
  obtain ⟨⟨⟩, t', hrun, -⟩ := wp_returns h
  exact ⟨t', hrun⟩

/-- A call that clears succeeds when the call itself does, and its `memset` returns. -/
lemma clearing_eq_ok_iff {last n : ℕ} {c : VmM ℤ} : Store.clearing d last n c t = (.ok 0, t') ↔
    ∃ s₁, c t.vm = (.ok 0, s₁) ∧
      Store.memset d last 0 n { t with vm := s₁ } = (.ok (), t') := by
  have hseq : Store.clearing d last n c t = seq (Store.liftVm c) (fun r =>
      if r = 0 then seq (Store.memset d last 0 n) (fun _ => ret r) else ret r) t := rfl
  rw [hseq]
  unfold seq Store.liftVm
  rcases hc : c t.vm with ⟨_ | r, s₁⟩
  · simp
  · by_cases hr : r = 0
    · subst hr
      rcases hm : Store.memset d last 0 n { t with vm := s₁ } with ⟨_ | u, t₁⟩
      · simp [hm]
      · simp [hm, ret]
    · simp [hr, ret]

/-! ### New pages -/

/-- **New pages read as zero**, whatever they held and whatever the state: all their bytes are
cleared. -/
theorem vmmNewUserPage_readsZero {base numPages : UInt32}
    (hrun : Store.vmmNewUserPage d base numPages t = (.ok 0, t')) {v : ℕ}
    (h1 : base.toNat ≤ v) (h2 : v < base.toNat + pageSize * numPages.toNat) :
    t'.ReadsZero d v := by
  obtain ⟨s₁, -, hmem⟩ := clearing_eq_ok_iff.mp hrun
  exact readsZero_of_memset (Nat.le_add_left _ _) hmem (by omega) (by rw [mul_comm]; exact h2)

/-! ### The pages of a program -/

/-- The place of byte `u` of the frame at `a`. -/
def framePlace (a u : ℕ) : ℕ × Fin pageSize := (a + pageSize * (u / pageSize), pageOffset u)

lemma framePlace_inj {a u v : ℕ} (h : framePlace a u = framePlace a v) : u = v := by
  have h1 := congrArg Prod.fst h
  have h2 := congrArg (fun y => y.2.val) h
  simp only [framePlace, pageOffset] at h1 h2
  have h3 : u / pageSize = v / pageSize :=
    Nat.eq_of_mul_eq_mul_left FrameManager.pageSize_pos (by omega)
  rw [← Nat.div_add_mod u pageSize, ← Nat.div_add_mod v pageSize, h2, h3]

/-- An address of a load is translated to its byte of the frame. -/
lemma LoadedAt.place {first n a u : ℕ} (h : LoadedAt d first n a secs s s')
    (hflags : HeaderFlags secs)
    (hne : secs ≠ []) (hend : pageSize * (first + n) ≤ 2 ^ 32) (hu : u < pageSize * n) :
    s'.place d (pageSize * first + u) = some (framePlace a u) := by
  have hpos := FrameManager.pageSize_pos
  have hdiv : (pageSize * first + u) / pageSize = first + u / pageSize :=
    Nat.mul_add_div hpos _ _
  have hlt : u / pageSize < n := Nat.div_lt_of_lt_mul hu
  have hv : pageSize * first + u < 2 ^ 32 := by
    rw [mul_add] at hend
    omega
  have hfit : first + n ≤ 2 ^ 20 := by
    simp only [pageSize] at hend
    omega
  have hentry : s'.pageEntry d ((pageSize * first + u) / pageSize) =
      some (sectionPte secs first a (u / pageSize)) := by
    rw [hdiv, h.pages (page_of_lt ((Nat.add_lt_add_left hlt first).trans_le hfit)),
      if_pos ⟨Nat.le_add_right _ _, Nat.add_lt_add_left hlt first⟩,
      Nat.add_sub_cancel_left, hflags.present_sectionPte hne h.aligned]
  have hread : wp (pdGetMapping d (pageSize * first + u)) (fun r _ =>
      placeOf (pageSize * first + u) r = some (framePlace a u)) (fun _ _ => False) s' := by
    refine pdGetMapping_read hv (fun e he => ?_) fun e hnone => ?_
    · obtain rfl := Option.some.inj (hentry.symm.trans he)
      have hpte : (sectionFlags secs (first + u / pageSize)).1 < 2 ^ 12 :=
        hflags.sectionFlags_lt hne _
      have hoff : pageOffset (pageSize * first + u) = pageOffset u := by
        simp [pageOffset]
      rw [placeOf, sectionPte, removeFlags_addFlags (by rw [Nat.add_mul_mod_self_left, h.aligned])
        hpte, hoff]
      rfl
    · rw [hentry] at hnone
      exact absurd hnone (Option.some_ne_none _)
  obtain ⟨r, hr⟩ := pdGetMapping_same s' d (pageSize * first + u)
  rw [place_of_run hr]
  exact wp_ok (Q := fun r _ => placeOf (pageSize * first + u) r = some (framePlace a u)) hread hr

/-- The bytes of the frame behind the first quarter are zero: `a` is the frame that the frame
manager hands out for `n` pages. -/
def TailZero (t : Store) (n : ℕ) : Prop :=
  ∀ a fm', fmAlloc n t.vm.fm = (.ok (.ok a), fm') →
    ∀ u, n * pageSize / 4 ≤ u → u < pageSize * n → t.byte (framePlace a u) = 0

/-- **Of the pages of a program only the first quarter is cleared**: they all read as zero
exactly when the rest of the frame was zero before. -/
theorem vmmMapSections_readsZero_iff (ho : Orderly lim t.vm) (hk : KernelApart d t.vm)
    (hflags : HeaderFlags secs) {garbage : UInt32 × UInt32} (hord : InOrder secs garbage)
    (hrun : Store.vmmMapSections d secs garbage t = (.ok 0, t')) :
    (∀ v, firstPage (loadBounds secs garbage).1 ≤ v / pageSize →
      v / pageSize < firstPage (loadBounds secs garbage).1 +
        pageCount (loadBounds secs garbage).1 (loadBounds secs garbage).2 → t'.ReadsZero d v) ↔
    TailZero t (pageCount (loadBounds secs garbage).1 (loadBounds secs garbage).2) := by
  obtain ⟨s₁, hvm, hmem⟩ := clearing_eq_ok_iff.mp hrun
  have hend := hord.le
  obtain ⟨hne, hload⟩ := vmmMapSections_loadedAt ho hk hflags.1 hord hvm
  generalize firstPage (loadBounds secs garbage).1 = first at hmem hend hload ⊢
  generalize pageCount (loadBounds secs garbage).1 (loadBounds secs garbage).2 = n
    at hmem hend hload ⊢
  rcases hload with ⟨rfl, -⟩ | ⟨a, hl⟩
  · -- no page is mapped
    refine ⟨fun _ a fm' _ u _ hu => absurd hu (Nat.not_lt_zero u), fun _ v h1 h2 => ?_⟩
    exact absurd h2 (not_lt.mpr h1)
  obtain ⟨hsame, -, hbytes⟩ := wp_ok (memset_spec _ _ _ (Nat.le_add_left _ _)) hmem
  dsimp only at hsame hbytes
  have hplace : ∀ {u}, u < pageSize * n →
    s₁.place d (pageSize * first + u) = some (framePlace a u) :=
    fun hu => hl.place hflags hne hend hu
  have hquarter : n * pageSize / 4 ≤ pageSize * n := by
    rw [mul_comm]
    exact Nat.div_le_self _ _
  -- the byte is cleared when it is in the first quarter
  have hcovers : ∀ {u}, u < pageSize * n →
      (s₁.Covers d (pageSize * first + n * pageSize / 4) (n * pageSize / 4) (framePlace a u) ↔
        u < n * pageSize / 4) := by
    intro u hu
    constructor
    · rintro ⟨v, h1, h2, h3⟩
      obtain ⟨u', rfl⟩ : ∃ u', v = pageSize * first + u' := ⟨v - pageSize * first, by omega⟩
      rw [hplace (by omega), Option.some.injEq] at h3
      have := framePlace_inj h3
      omega
    · intro hlt
      exact ⟨pageSize * first + u, by omega, by omega, hplace hu⟩
  have hreads : ∀ {u}, u < pageSize * n → (t'.ReadsZero d (pageSize * first + u) ↔
      n * pageSize / 4 ≤ u → t.byte (framePlace a u) = 0) := by
    intro u hu
    rw [readsZero_iff_byte, hsame, hplace hu]
    simp only [Option.some.injEq, exists_eq_left']
    by_cases hlt : u < n * pageSize / 4
    · rw [(hbytes _).1 ((hcovers hu).mpr hlt)]
      exact ⟨fun _ hge => absurd hlt (not_lt.mpr hge), fun _ => rfl⟩
    · rw [(hbytes _).2 fun hc => hlt ((hcovers hu).mp hc)]
      exact ⟨fun hz _ => hz, fun hz => hz (not_lt.mp hlt)⟩
  constructor
  · intro hall a' fm' halloc u h1 h2
    obtain ⟨fm'', halloc'⟩ := hl.alloc
    rw [halloc'] at halloc
    obtain rfl : a = a' := by simpa using (Prod.mk.inj halloc).1
    have hdiv : (pageSize * first + u) / pageSize = first + u / pageSize :=
      Nat.mul_add_div FrameManager.pageSize_pos _ _
    exact (hreads h2).mp (hall _ (by rw [hdiv]; exact Nat.le_add_right _ _)
      (by rw [hdiv]; exact Nat.add_lt_add_left (Nat.div_lt_of_lt_mul h2) first)) h1
  · intro htail v h1 h2
    obtain ⟨fm', halloc⟩ := hl.alloc
    have hge : pageSize * first ≤ v := by
      rw [mul_comm]
      exact (Nat.le_div_iff_mul_le FrameManager.pageSize_pos).mp h1
    have hlt : v < pageSize * first + pageSize * n := by
      rw [← mul_add, mul_comm]
      exact (Nat.div_lt_iff_lt_mul FrameManager.pageSize_pos).mp h2
    obtain ⟨u, rfl⟩ : ∃ u, v = pageSize * first + u := ⟨v - pageSize * first, by omega⟩
    exact (hreads (by omega)).mpr fun hu => htail a fm' halloc u hu (by omega)

/-! ### The two calls together -/

/-- A call that maps pages with a frame that it gets. -/
inductive MappingCall where
  | mapSections (secs : List MemSection) (garbage : UInt32 × UInt32)
  | newUserPage (base numPages : UInt32)

namespace MappingCall

/-- The call, on the directory `d`. -/
def run (d : ℕ) : MappingCall → StoreM ℤ
  | .mapSections secs garbage => Store.vmmMapSections d secs garbage
  | .newUserPage base numPages => Store.vmmNewUserPage d base numPages

/-- The sections have flags of the header. Their bounds are in order, which says something of
empty sections only. -/
def Legal : MappingCall → Prop
  | .mapSections secs garbage => HeaderFlags secs ∧ InOrder secs garbage
  | .newUserPage _ _ => True

/-- The address is one of a page that the call maps. -/
def Maps (v : ℕ) : MappingCall → Prop
  | .mapSections secs garbage => firstPage (loadBounds secs garbage).1 ≤ v / pageSize ∧
      v / pageSize < firstPage (loadBounds secs garbage).1 +
        pageCount (loadBounds secs garbage).1 (loadBounds secs garbage).2
  | .newUserPage base numPages =>
      base.toNat ≤ v ∧ v < base.toNat + pageSize * numPages.toNat

/-- Nothing shows of what the frame held: the call clears it all, or the rest was zero. -/
def ShowsNothing (t : Store) : MappingCall → Prop
  | .mapSections secs garbage =>
      TailZero t (pageCount (loadBounds secs garbage).1 (loadBounds secs garbage).2)
  | .newUserPage _ _ => True

end MappingCall

/-- A mapped address has a place. -/
lemma place_eq_of_entry {v u : ℕ} (hv : v < 2 ^ 32) (h : s.pageEntry d (v / pageSize) = some u) :
    s.place d v = some (removeFlags u, pageOffset v) := by
  have hread : wp (pdGetMapping d v) (fun r _ => placeOf v r = some (removeFlags u, pageOffset v))
      (fun _ _ => False) s := by
    refine pdGetMapping_read hv (fun e he => ?_) fun e hnone => ?_
    · rw [Option.some.inj (he.symm.trans h)]
      rfl
    · rw [h] at hnone
      exact absurd hnone (Option.some_ne_none _)
  obtain ⟨r, hr⟩ := pdGetMapping_same s d v
  rw [place_of_run hr]
  exact wp_ok (Q := fun r _ => placeOf v r = some (removeFlags u, pageOffset v)) hread hr

/-- A store in which every byte of user memory is one. -/
def onesStore : Store := ⟨bootWithHeap, fun _ _ => 1⟩

/-- A store in which the bytes of the first quarter of every page are one. -/
def quarterStore : Store := ⟨bootWithHeap, fun _ o => if o.val < 1024 then 1 else 0⟩

/-- A call that maps the first user page and clears at most that: the bytes it leaves are those
of its frame. -/
lemma clearing_firstPage (bytes : ℕ → Fin pageSize → UInt8) (len : ℕ) (hlen : len ≤ pageSize)
    {c : VmM ℤ} {u : ℕ}
    (hc : ((c bootWithHeap).1.toOption, (c bootWithHeap).2.pageEntry 0 0x1000) =
      (some 0, some u)) :
    ∃ t', Store.clearing 0 (0x1000000 + len) len c ⟨bootWithHeap, bytes⟩ = (.ok 0, t') ∧
      ∀ v, v / pageSize = 0x1000 → 0x1000000 + len ≤ v → t'.ReadsZero 0 v →
        bytes (removeFlags u) (pageOffset v) = 0 := by
  obtain ⟨hok, hentry⟩ := Prod.mk.inj hc
  obtain ⟨s₁, hrun⟩ := run_of_toOption hok
  rw [hrun] at hentry
  have hplace : ∀ v, v / pageSize = 0x1000 →
      s₁.place 0 v = some (removeFlags u, pageOffset v) := fun v hv =>
    place_eq_of_entry (by simp only [pageSize] at hv; omega) (by rw [hv]; exact hentry)
  have hpage : ∀ v, 0x1000000 ≤ v → v < 0x1000000 + len → v / pageSize = 0x1000 := by
    intro v h1 h2
    simp only [pageSize] at *
    omega
  obtain ⟨t', hmem⟩ := memset_returns (t := ⟨s₁, bytes⟩) (d := 0) (0x1000000 + len) len 0
    (Nat.le_add_left _ _) fun v h1 h2 => by
      rw [hplace v (hpage v (by omega) h2)]
      exact Option.some_ne_none _
  refine ⟨t', clearing_eq_ok_iff.mpr ⟨s₁, hrun, hmem⟩, fun v hv hge hzero => ?_⟩
  obtain ⟨hvm, -, hbytes⟩ := wp_ok (memset_spec _ _ _ (Nat.le_add_left _ _)) hmem
  dsimp only at hvm hbytes
  rw [readsZero_iff_byte, hvm] at hzero
  obtain ⟨y, hy, hbyte⟩ := hzero
  have hkept : t'.byte y = Store.byte ⟨s₁, bytes⟩ y := by
    refine (hbytes y).2 fun hcov => ?_
    obtain ⟨w, h1, h2, hw⟩ := hcov
    have hwpage := hpage w (by omega) h2
    -- two addresses of one page with one place
    rw [hplace v hv, Option.some.injEq] at hy
    rw [hplace w hwpage, ← hy, Option.some.injEq] at hw
    have hoff : w % pageSize = v % pageSize := congrArg (fun y => y.2.val) hw
    rw [← Nat.div_add_mod w pageSize, hwpage, hoff, ← hv, Nat.div_add_mod] at h2
    omega
  obtain rfl := Option.some.inj ((hplace v hv).symm.trans hy)
  rw [hkept] at hbyte
  exact hbyte

end ShrekOS
