/-
What a loaded program finds in its memory: `load_elf_sections` of `loader/loader.c`.

* `storeBytes`: the stores of a `memcpy` or a `memset`, through the page tables of the current
  process; `wp_storeBytes`: what they leave in memory;
* `getbytes`: a part of a file, copied to user memory;
* `SimpleElf`, `loadElfSections`: the sections of a program, and how they are mapped and filled;
* `SimpleElf.image`: the bytes of the program, by address; where sections overlap, the one that
  is filled last;
* `loadElfSections_image`: **a load that succeeds** leaves the image in memory, and no other
  memory is written.

The directory is the one of the current process, as for all callers. The files lie in the
kernel's own memory (`kmem`), which no user page shares.
-/
import ShrekOS.Mem.ZeroedPages
import ShrekOS.Mem.SectionAccess

namespace ShrekOS.LoadElf

open Kit Kit.Cmd Vm

/-! ### The loader -/

/-- The stores of a `memcpy` or a `memset` of `n` more bytes, from byte `i` on. -/
def storeBytes (cur : ℕ) (dst : UInt32) (f : ℕ → UInt8) : ℕ → ℕ → StoreM Unit
  | _, 0 => pure ()
  | i, n + 1 => do
      Store.setByte cur (dst + UInt32.ofNat i).toNat (f i)
      storeBytes cur dst f (i + 1) n

/-- An `unsigned` as an `int`. -/
def asInt (w : UInt32) : ℤ := if w.toNat < 2 ^ 31 then w.toNat else w.toNat - 2 ^ 32

/-- A byte of a file; the file begins at `execbytes`. -/
def fileByte (kmem : UInt32 → UInt8) (e : TocEntry) (offset : UInt32) (i : ℕ) : UInt8 :=
  kmem (e.execbytes + offset + UInt32.ofNat i)

/-- `getbytes`, to user memory; `memcpy` takes the number of bytes as an unsigned one. -/
def getbytes (toc : List TocEntry) (kmem : UInt32 → UInt8) (cur : ℕ) (filename : String)
    (offset size : ℤ) (buf : UInt32) : StoreM ℤ := do
  match toc.find? fun e => e.execname = filename with
  | none => pure (-1)
  | some e => do
      storeBytes cur buf (fileByte kmem e (UInt32.ofNat (offset % 2 ^ 32).toNat)) 0
        (e.numBytes offset size % 2 ^ 32).toNat
      pure (e.numBytes offset size)

/-- A section of a program that is filled from its file. -/
structure FilePart where
  off : UInt32
  len : UInt32
  start : UInt32

/-- `simple_elf_t`: the fields that the loader reads. -/
structure SimpleElf where
  eFname : String
  eEntry : UInt32
  txt : FilePart
  dat : FilePart
  rodat : FilePart
  eBssstart : UInt32
  eBsslen : UInt32

/-- The sections that are mapped. -/
def SimpleElf.secs (elf : SimpleElf) : List MemSection :=
  [⟨elf.txt.start, elf.txt.len, UInt32.ofNat userWr, UInt32.ofNat userRo⟩,
    ⟨elf.dat.start, elf.dat.len, UInt32.ofNat userWr, UInt32.ofNat userWr⟩,
    ⟨elf.rodat.start, elf.rodat.len, UInt32.ofNat userWr, UInt32.ofNat userRo⟩,
    ⟨elf.eBssstart, elf.eBsslen, UInt32.ofNat userWr, UInt32.ofNat userWr⟩]

/-- A call of `getbytes` for a section: whether it returns the length of the section. -/
def fillPart (toc : List TocEntry) (kmem : UInt32 → UInt8) (cur : ℕ) (filename : String)
    (part : FilePart) : StoreM Bool := do
  let r ← getbytes toc kmem cur filename (asInt part.off) (asInt part.len) part.start
  pure (r % 2 ^ 32 = part.len.toNat)

/-- `load_elf_sections`: the `entry_point` of the process, or a negative code. -/
def loadElfSections (toc : List TocEntry) (kmem : UInt32 → UInt8) (d : ℕ) (elf : SimpleElf)
    (garbage : UInt32 × UInt32) : StoreM (Except ℤ UInt32) := do
  if (← Store.vmmMapSections d elf.secs garbage) < 0 then pure (.error (-1)) else do
  if !(← fillPart toc kmem d elf.eFname elf.txt) then pure (.error (-1)) else do
  if !(← fillPart toc kmem d elf.eFname elf.dat) then pure (.error (-1)) else do
  if !(← fillPart toc kmem d elf.eFname elf.rodat) then pure (.error (-1)) else do
  storeBytes d elf.eBssstart (fun _ => 0) 0 elf.eBsslen.toNat
  pure (.ok elf.eEntry)

/-! ### What is in memory -/

/-- The address is one of a section. -/
def Spans (start len : UInt32) (v : ℕ) : Prop :=
  start.toNat ≤ v ∧ v < start.toNat + len.toNat

instance (start len : UInt32) (v : ℕ) : Decidable (Spans start len v) :=
  inferInstanceAs (Decidable (_ ∧ _))

/-- The byte of a program at an address of one of its sections. Where two of them overlap, it is
that of the one which is filled later. -/
def SimpleElf.image (elf : SimpleElf) (kmem : UInt32 → UInt8) (e : TocEntry) (v : ℕ) : UInt8 :=
  if Spans elf.eBssstart elf.eBsslen v then 0
  else if Spans elf.rodat.start elf.rodat.len v then
    fileByte kmem e elf.rodat.off (v - elf.rodat.start.toNat)
  else if Spans elf.dat.start elf.dat.len v then
    fileByte kmem e elf.dat.off (v - elf.dat.start.toNat)
  else fileByte kmem e elf.txt.off (v - elf.txt.start.toNat)

variable {lim d n : ℕ} {s s' : Vm} {t t' t₁ : Store} {secs : List MemSection} {elf : SimpleElf}
  {toc : List TocEntry} {kmem : UInt32 → UInt8} {garbage : UInt32 × UInt32} {start len : UInt32}
  {f : ℕ → UInt8}

/-- What the stores to a range leave: its addresses are mapped, the byte at a place that only one
of them has is the one for it, and places that none of them has are as before. -/
structure Filled (t t' : Store) (d : ℕ) (start len : UInt32) (f : ℕ → UInt8) : Prop where
  vm : t'.vm = t.vm
  mapped : ∀ v, Spans start len v → t.vm.place d v ≠ none
  inside : ∀ v y, Spans start len v → t.vm.place d v = some y →
    (∀ w, Spans start len w → t.vm.place d w = some y → w = v) → t'.byte y = f (v - start.toNat)
  outside : ∀ y, (∀ v, Spans start len v → t.vm.place d v ≠ some y) → t'.byte y = t.byte y

/-- The stores from byte `i` on. -/
lemma storeBytes_spec (hfit : start.toNat + len.toNat ≤ 2 ^ 32) : ∀ (n i : ℕ) {t : Store},
    i + n = len.toNat →
    wp (storeBytes d start f i n) (fun _ t' => t'.vm = t.vm ∧
      (∀ v, start.toNat + i ≤ v → Spans start len v → t.vm.place d v ≠ none) ∧
      (∀ v y, start.toNat + i ≤ v → Spans start len v → t.vm.place d v = some y →
        (∀ w, Spans start len w → t.vm.place d w = some y → w = v) →
          t'.byte y = f (v - start.toNat)) ∧
      ∀ y, (∀ v, start.toNat + i ≤ v → Spans start len v → t.vm.place d v ≠ some y) →
        t'.byte y = t.byte y)
      (fun _ _ => ∃ v, Spans start len v ∧ t.vm.place d v = none) t := by
  intro n
  induction n with
  | zero =>
      intro i t hi
      refine ⟨rfl, fun v hge hv => ?_, fun v y hge hv => ?_, fun _ _ => rfl⟩
      · exact absurd hv.2 (by omega)
      · exact absurd hv.2 (by omega)
  | succ n ih =>
      intro i t hi
      have haddr : (start + UInt32.ofNat i).toNat = start.toNat + i := by
        rw [UInt32.toNat_add, UInt32.toNat_ofNat']
        omega
      have hspans : Spans start len (start.toNat + i) := ⟨by omega, by omega⟩
      rw [storeBytes, wp_bind, Store.setByte, wp_bind, haddr]
      refine wp_translate (fun p hp => ?_) fun hnone => ⟨_, hspans, hnone⟩
      rw [wp_modify]
      have hrest := ih (i + 1) (t := t.putByte (p, pageOffset (start.toNat + i)) (f i)) (by omega)
      refine wp_mono hrest (fun _ t' hpost => ?_) fun _ _ he => he
      obtain ⟨hvm, hmapped, hinside, houtside⟩ := hpost
      rw [Store.putByte_vm] at hvm hmapped hinside houtside
      refine ⟨hvm, fun v hge hv => ?_, fun v y hge hv hy hone => ?_, fun y hy => ?_⟩
      · rcases hge.eq_or_lt with rfl | hlt
        · rw [hp]
          exact Option.some_ne_none _
        · exact hmapped v (by omega) hv
      · rcases hge.eq_or_lt with rfl | hlt
        · -- no later byte is stored at this place
          obtain rfl := Option.some.inj (hp.symm.trans hy)
          rw [houtside _ fun w hw hw' heq => ?_, Store.byte_putByte_self, Nat.add_sub_cancel_left]
          have := hone w hw' heq
          omega
        · exact hinside v y (by omega) hv hy hone
      · rw [houtside y fun v hv hv' => hy v (by omega) hv', Store.byte_putByte_of_ne]
        rintro rfl
        exact hy _ le_rfl hspans hp

/-- **The stores to a range**, when they return. -/
lemma wp_storeBytes (hfit : start.toNat + len.toNat ≤ 2 ^ 32) :
    wp (storeBytes d start f 0 len.toNat) (fun _ t' => Filled t t' d start len f)
      (fun _ _ => True) t := by
  refine wp_mono (storeBytes_spec (d := d) (f := f) hfit len.toNat 0 (t := t) (Nat.zero_add _))
    (fun _ t' hpost => ?_) fun _ _ _ => trivial
  obtain ⟨hvm, hmapped, hinside, houtside⟩ := hpost
  exact ⟨hvm, fun v hv => hmapped v hv.1 hv, fun v y hv => hinside v y hv.1 hv,
    fun y hy => houtside y fun v _ hv => hy v hv⟩

/-- A load of a byte at an address with a place. -/
lemma getByte_of_place {v : ℕ} {y : ℕ × Fin pageSize} (hy : t.vm.place d v = some y) :
    (Store.getByte d v t).1 = .ok (t.byte y) := by
  have hread : wp (Store.getByte d v) (fun x _ => x = t.byte y) (fun _ _ => False) t := by
    rw [Store.getByte, wp_bind]
    refine wp_translate (fun p hp => ?_) fun hnone => ?_
    · rw [wp_gets]
      obtain rfl := Option.some.inj (hp.symm.trans hy)
      rfl
    · rw [hnone] at hy
      cases hy
  obtain ⟨x, t', hrun, rfl⟩ := wp_returns hread
  rw [hrun]

/-! ### A part of the file -/

lemma bmod_emod_word (x : ℤ) : Int.bmod x (2 ^ 32) % 2 ^ 32 = x % 2 ^ 32 := by
  have h : ∀ n : ℕ, Int.bmod x n % n = x % n := fun n => Int.bmod_emod
  exact_mod_cast h (2 ^ 32)

lemma bmod_word_of_lt {x : ℤ} (h₀ : 0 ≤ x) (h : x < 2 ^ 31) : Int.bmod x (2 ^ 32) = x := by
  rw [Int.bmod_eq_of_le (by omega) (by omega)]

lemma asInt_emod (w : UInt32) : asInt w % 2 ^ 32 = w.toNat := by
  have hlt := w.toNat_lt
  rw [asInt]
  split_ifs <;> omega

/-- The part lies in its file. -/
def InFile (part : FilePart) (e : TocEntry) : Prop :=
  (part.off.toNat + part.len.toNat : ℤ) ≤ e.execlen

/-- The sum that `getbytes` compares with the length of the file does not overflow. -/
def SumFits (part : FilePart) : Prop := part.off.toNat + part.len.toNat < 2 ^ 31

/-- A part of as many bytes as were asked for lies in its file, if the sum does not overflow. -/
lemma inFile_of_numBytes {part : FilePart} {e : TocEntry}
    (h : e.numBytes (asInt part.off) (asInt part.len) % 2 ^ 32 = part.len.toNat)
    (hlen : 0 ≤ e.execlen) (hsum : SumFits part) : InFile part e := by
  rw [SumFits] at hsum
  have hoff : asInt part.off = part.off.toNat := if_pos (by omega)
  have hsize : asInt part.len = part.len.toNat := if_pos (by omega)
  rw [TocEntry.numBytes, hoff, hsize, bmod_word_of_lt (by omega) (by omega)] at h
  by_contra hlt
  rw [InFile, not_le] at hlt
  rw [if_pos (by omega), bmod_emod_word] at h
  omega

/-- **A sum that overflows is negative**: all bytes are copied, wherever the file ends. -/
lemma numBytes_overflow {part : FilePart} {e : TocEntry} (hoff : part.off.toNat < 2 ^ 31)
    (hlen : part.len.toNat < 2 ^ 31) (hsum : ¬ SumFits part) (he : 0 ≤ e.execlen) :
    e.numBytes (asInt part.off) (asInt part.len) = part.len.toNat := by
  rw [SumFits, not_lt] at hsum
  have hwrap : Int.bmod (part.len.toNat + part.off.toNat) (2 ^ 32) =
      part.len.toNat + part.off.toNat - 2 ^ 32 := by
    rw [Int.bmod_def]
    omega
  rw [TocEntry.numBytes, asInt, asInt, if_pos hoff, if_pos hlen, hwrap, if_neg (by omega)]

/-- **A section is filled** from its file, if the call returns its length. -/
lemma wp_fillPart {part : FilePart} {name : String}
    (hfit : part.start.toNat + part.len.toNat ≤ 2 ^ 32)
    (huser : part.len ≠ 0 → userMemStart ≤ part.start.toNat) :
    wp (fillPart toc kmem d name part) (fun b t' => b = true →
      ∃ e, (toc.find? fun e => e.execname = name) = some e ∧
        Filled t t' d part.start part.len (fileByte kmem e part.off) ∧
        (0 ≤ e.execlen → SumFits part → InFile part e))
      (fun _ _ => True) t := by
  have hlenlt : part.len.toNat < 2 ^ 32 - 1 := by
    by_cases hzero : part.len = 0
    · rw [hzero]
      decide
    · have hstart := huser hzero
      simp only [userMemStart] at hstart
      omega
  have hoff : UInt32.ofNat (asInt part.off % 2 ^ 32).toNat = part.off := by
    rw [asInt_emod, Int.toNat_natCast, UInt32.ofNat_toNat]
  cases hfind : toc.find? fun e => e.execname = name with
  | none =>
      rw [fillPart, getbytes]
      simp only [hfind]
      intro htrue
      have heq : (-1 : ℤ) % 2 ^ 32 = part.len.toNat := of_decide_eq_true htrue
      omega
  | some e =>
      rw [fillPart, getbytes]
      simp only [hfind, hoff, wp_bind, wp_pure]
      by_cases hlen : e.numBytes (asInt part.off) (asInt part.len) % 2 ^ 32 = part.len.toNat
      · rw [hlen, Int.toNat_natCast]
        exact wp_imp (wp_storeBytes hfit) fun _ t' h _ => ⟨e, rfl, h, inFile_of_numBytes hlen⟩
      · exact wp_any _ (fun _ _ htrue => absurd (decide_eq_true_eq.mp htrue) hlen)
          fun _ _ => trivial

/-! ### The sections of a program -/

lemma SimpleElf.accessFlags (elf : SimpleElf) : AccessFlags elf.secs := by
  simp [AccessFlags, SimpleElf.secs, userWr, userRo]

lemma SimpleElf.secs_ne_nil (elf : SimpleElf) : elf.secs ≠ [] := List.cons_ne_nil _ _

/-- A load returns 0, or a negative code. -/
lemma mapSections_zero (ho : Orderly lim s) (hsecs : UserSections secs) (hflags : HeaderFlags secs)
    {r : ℤ} (hr : 0 ≤ r) (hrun : ShrekOS.vmmMapSections d secs garbage s = (.ok r, s')) :
    r = 0 := by
  obtain ⟨hp, hgiven, hrun'⟩ := vmmMapSections_generous hr hrun
  have hpost := wp_ok (vmmMapSections_loaded (d := d) (s := s.withHeap hp)
    (ho.toLedgerInv.of_eq rfl rfl) ⟨ho.tables, hgiven, ho.idle⟩ hflags.1
    (hsecs.bounds garbage).2.2) hrun'
  rcases hpost with hneg | ⟨hzero, -⟩
  · omega
  · exact hzero

/-- The address is one of a page that the load maps. -/
abbrev OfLoad (secs : List MemSection) (garbage : UInt32 × UInt32) (v : ℕ) : Prop :=
  (MappingCall.mapSections secs garbage).Maps v

/-- After the sections are mapped: the pages of the load have places of their own, nothing else was
written, and an address of a section that has a place is one of the load. -/
structure Mapped (t t₁ : Store) (d : ℕ) (secs : List MemSection) (garbage : UInt32 × UInt32) :
    Prop where
  place : ∀ v, OfLoad secs garbage v → t₁.vm.place d v ≠ none
  inj : ∀ v w, OfLoad secs garbage v → OfLoad secs garbage w →
    t₁.vm.place d v = t₁.vm.place d w → v = w
  outside : ∀ y, (∀ v, OfLoad secs garbage v → t₁.vm.place d v ≠ some y) → t₁.byte y = t.byte y
  range : ∀ ms ∈ secs, ∀ v, Spans ms.vAddrStart ms.len v → t₁.vm.place d v ≠ none →
    OfLoad secs garbage v

lemma maps_of_place {v : ℕ} (h : s.place d v ≠ none) : s.Maps d v := by
  obtain ⟨r, hr⟩ := pdGetMapping_same s d v
  rw [place_of_run hr] at h
  cases r with
  | error e => exact absurd rfl h
  | ok u => exact ⟨u, by rw [hr]⟩

/-- **The sections are mapped**, if none of their pages was before. -/
lemma mapped_of_run (ho : Orderly lim t.vm) (hsecs : UserSections secs) (hflags : HeaderFlags secs)
    (hne : secs ≠ []) (hfree : MapsNone d secs t.vm)
    (hrun : Store.vmmMapSections d secs garbage t = (.ok 0, t₁)) : Mapped t t₁ d secs garbage := by
  have huser := (hsecs.bounds garbage).2.2
  obtain ⟨s₁, hvm, hmem⟩ := clearing_eq_ok_iff.mp hrun
  have hcount : firstPage (loadBounds secs garbage).1 +
      pageCount (loadBounds secs garbage).1 (loadBounds secs garbage).2 = _ :=
    pageCount_eq huser.1 huser.2
  -- the pages of the call lie one after the other in one new block of frames
  have hload := vmmMapSections_succeeds ho.toLedgerInv ho.tables ho.idle hflags.1 huser hvm
  -- which the clearing leaves mapped as they are
  obtain ⟨hsame, -, hbytes⟩ := wp_ok (memset_spec _ _ _ (Nat.le_add_left _ _)) hmem
  dsimp only at hsame hbytes
  have hrange : ∀ ms ∈ secs, ∀ v, Spans ms.vAddrStart ms.len v → t₁.vm.place d v ≠ none →
      OfLoad secs garbage v := by
    intro ms hms v hv hplace
    rw [hsame] at hplace
    have hlen : ms.len ≠ 0 := by
      rintro hzero
      rw [Spans, hzero, UInt32.toNat_zero] at hv
      omega
    have hfits := hsecs.fits ms hms
    have hlt : v < 2 ^ 32 := hv.2.trans_le hfits
    -- mapped after the call and not before: a page of the call
    have hmaps := (maps_iff_of_load ho hflags huser hne hvm hlt).mp (maps_of_place hplace)
    exact hmaps.resolve_right (hfree ms hms hlen v hv.1 hv.2)
  generalize hfirst : firstPage (loadBounds secs garbage).1 = first at hmem hcount hload hbytes
  generalize hn : pageCount (loadBounds secs garbage).1 (loadBounds secs garbage).2 = n
    at hmem hcount hload hbytes
  have hOf : ∀ v, OfLoad secs garbage v ↔ first ≤ v / pageSize ∧ v / pageSize < first + n := by
    intro v
    rw [OfLoad, MappingCall.Maps, hfirst, hn]
  have hend : pageSize * (first + n) ≤ 2 ^ 32 := by
    have hlt := (loadBounds secs garbage).2.toNat_lt
    rw [hcount]
    simp only [pageSize] at *
    omega
  rcases hload with ⟨rfl, -⟩ | ⟨a, hl⟩
  · -- no page is mapped, and no byte is cleared
    have hnone : ∀ v, ¬ OfLoad secs garbage v := fun v hv => by
      have := (hOf v).mp hv
      omega
    refine ⟨fun v hv => absurd hv (hnone v), fun v _ hv => absurd hv (hnone v), fun y _ => ?_,
      hrange⟩
    refine (hbytes y).2 ?_
    rintro ⟨v, h1, h2, -⟩
    omega
  -- an address of the call is an offset into the block
  have hoff : ∀ v, OfLoad secs garbage v → ∃ u < pageSize * n, v = pageSize * first + u := by
    intro v hv
    obtain ⟨h1, h2⟩ := (hOf v).mp hv
    have hge : pageSize * first ≤ v := by
      rw [mul_comm]
      exact (Nat.le_div_iff_mul_le FrameManager.pageSize_pos).mp h1
    have hlt : v < pageSize * first + pageSize * n := by
      rw [← mul_add, mul_comm]
      exact (Nat.div_lt_iff_lt_mul FrameManager.pageSize_pos).mp h2
    exact ⟨v - pageSize * first, by omega, by omega⟩
  -- and its byte lies at that offset of the frames
  have hplace : ∀ {u}, u < pageSize * n →
      t₁.vm.place d (pageSize * first + u) = some (framePlace a u) := fun hu => by
    rw [hsame]
    exact hl.loadedAt.place hflags hne hend hu
  refine ⟨fun v hv => ?_, fun v w hv hw heq => ?_, fun y hy => ?_, hrange⟩
  · obtain ⟨u, hu, rfl⟩ := hoff v hv
    rw [hplace hu]
    exact Option.some_ne_none _
  · obtain ⟨u, hu, rfl⟩ := hoff v hv
    obtain ⟨u', hu', rfl⟩ := hoff w hw
    rw [hplace hu, hplace hu', Option.some.injEq] at heq
    rw [framePlace_inj heq]
  · refine (hbytes y).2 ?_
    rintro ⟨v, h1, h2, h3⟩
    -- a quarter of the bytes is cleared, all of them addresses of the call
    have hquarter : n * pageSize / 4 ≤ pageSize * n := by
      rw [mul_comm]
      exact Nat.div_le_self _ _
    refine hy v ((hOf v).mpr ⟨?_, ?_⟩) (hsame ▸ h3)
    · exact (Nat.le_div_iff_mul_le FrameManager.pageSize_pos).mpr (by rw [mul_comm]; omega)
    · refine (Nat.div_lt_iff_lt_mul FrameManager.pageSize_pos).mpr ?_
      rw [mul_comm, mul_add]
      omega

/-- The byte of an address after the stores to a range, if no other address has its place. -/
lemma Filled.byte_eq {v : ℕ} {y : ℕ × Fin pageSize} (h : Filled t t' d start len f)
    (hone : ∀ w, Spans start len w → t.vm.place d w = some y → w = v)
    (hy : t.vm.place d v = some y) :
    t'.byte y = if Spans start len v then f (v - start.toNat) else t.byte y := by
  split_ifs with hv
  · exact h.inside v y hv hy hone
  · refine h.outside y fun w hw hwy => hv ?_
    rwa [← hone w hw hwy]

/-- A call that clears returns what the call returns. -/
lemma clearing_ok {last : ℕ} {c : VmM ℤ} {r : ℤ}
    (hrun : Store.clearing d last n c t = (.ok r, t')) : ∃ s₁, c t.vm = (.ok r, s₁) := by
  have h : wp (Store.clearing d last n c) (fun r _ => ∃ s₁, c t.vm = (.ok r, s₁))
      (fun _ _ => True) t := by
    rw [Store.clearing, wp_bind, wp_liftVm]
    refine wp_imp (wp_run c t.vm) fun r s₁ hc => ?_
    rw [wp_ite]
    refine ⟨fun _ => ?_, fun _ => ⟨s₁, hc⟩⟩
    rw [wp_bind]
    exact wp_any _ (fun _ _ => ⟨s₁, hc⟩) fun _ _ => trivial
  exact wp_ok h hrun

/-- What a load that succeeds leaves in memory. -/
structure ImageLoaded (toc : List TocEntry) (kmem : UInt32 → UInt8) (d : ℕ) (elf : SimpleElf)
    (garbage : UInt32 × UInt32) (t t' : Store) : Prop where
  image : ∃ e, (toc.find? fun e => e.execname = elf.eFname) = some e ∧
    (0 ≤ e.execlen → ∀ part ∈ [elf.txt, elf.dat, elf.rodat], SumFits part → InFile part e) ∧
    ∀ ms ∈ elf.secs, ∀ v, Spans ms.vAddrStart ms.len v →
      OfLoad elf.secs garbage v ∧ (Store.getByte d v t').1 = .ok (elf.image kmem e v)
  others : ∀ y, (∀ v, OfLoad elf.secs garbage v → t'.vm.place d v ≠ some y) → t'.byte y = t.byte y

/-- The four fills, one after the other. -/
lemma imageLoaded_of_fills {t₂ t₃ t₄ : Store} {e : TocEntry}
    (hm : Mapped t t₁ d elf.secs garbage)
    (hfile : (toc.find? fun e => e.execname = elf.eFname) = some e)
    (hin : 0 ≤ e.execlen → ∀ part ∈ [elf.txt, elf.dat, elf.rodat], SumFits part → InFile part e)
    (htxt : Filled t₁ t₂ d elf.txt.start elf.txt.len (fileByte kmem e elf.txt.off))
    (hdat : Filled t₂ t₃ d elf.dat.start elf.dat.len (fileByte kmem e elf.dat.off))
    (hrodat : Filled t₃ t₄ d elf.rodat.start elf.rodat.len (fileByte kmem e elf.rodat.off))
    (hbss : Filled t₄ t' d elf.eBssstart elf.eBsslen fun _ => 0) :
    ImageLoaded toc kmem d elf garbage t t' := by
  have hvm₂ : t₂.vm = t₁.vm := htxt.vm
  have hvm₃ : t₃.vm = t₁.vm := hdat.vm.trans hvm₂
  have hvm₄ : t₄.vm = t₁.vm := hrodat.vm.trans hvm₃
  have hvm : t'.vm = t₁.vm := hbss.vm.trans hvm₄
  -- every address of a section is one of the load, with a place of its own
  have hload : ∀ ms ∈ elf.secs, ∀ v, Spans ms.vAddrStart ms.len v → OfLoad elf.secs garbage v := by
    intro ms hms v hv
    refine hm.range ms hms v hv ?_
    simp only [SimpleElf.secs, List.mem_cons, List.not_mem_nil, or_false] at hms
    rcases hms with rfl | rfl | rfl | rfl
    · exact htxt.mapped v hv
    · exact hvm₂ ▸ hdat.mapped v hv
    · exact hvm₃ ▸ hrodat.mapped v hv
    · exact hvm₄ ▸ hbss.mapped v hv
  have htxtOf : ∀ v, Spans elf.txt.start elf.txt.len v → OfLoad elf.secs garbage v :=
    hload _ (.head _)
  have hdatOf : ∀ v, Spans elf.dat.start elf.dat.len v → OfLoad elf.secs garbage v :=
    hload _ (.tail _ (.head _))
  have hrodatOf : ∀ v, Spans elf.rodat.start elf.rodat.len v → OfLoad elf.secs garbage v :=
    hload _ (.tail _ (.tail _ (.head _)))
  have hbssOf : ∀ v, Spans elf.eBssstart elf.eBsslen v → OfLoad elf.secs garbage v :=
    hload _ (.tail _ (.tail _ (.tail _ (.head _))))
  refine ⟨⟨e, hfile, hin, fun ms hms v hv => ⟨hload ms hms v hv, ?_⟩⟩, fun y hy => ?_⟩
  · have hvOf := hload ms hms v hv
    obtain ⟨y, hy⟩ := Option.ne_none_iff_exists'.mp (hm.place v hvOf)
    have hone : ∀ w, OfLoad elf.secs garbage w → t₁.vm.place d w = some y → w = v :=
      fun w hw hwy => hm.inj w v hw hvOf (hwy.trans hy.symm)
    have h₂ := htxt.byte_eq (fun w hw => hone w (htxtOf w hw)) hy
    have h₃ := hdat.byte_eq (fun w hw => hvm₂ ▸ hone w (hdatOf w hw)) (hvm₂ ▸ hy)
    have h₄ := hrodat.byte_eq (fun w hw => hvm₃ ▸ hone w (hrodatOf w hw)) (hvm₃ ▸ hy)
    have h₅ := hbss.byte_eq (fun w hw => hvm₄ ▸ hone w (hbssOf w hw)) (hvm₄ ▸ hy)
    have hsome : ¬ Spans elf.eBssstart elf.eBsslen v → ¬ Spans elf.rodat.start elf.rodat.len v →
        ¬ Spans elf.dat.start elf.dat.len v → Spans elf.txt.start elf.txt.len v := by
      intro hb hr hd
      simp only [SimpleElf.secs, List.mem_cons, List.not_mem_nil, or_false] at hms
      rcases hms with rfl | rfl | rfl | rfl
      · exact hv
      · exact absurd hv hd
      · exact absurd hv hr
      · exact absurd hv hb
    rw [getByte_of_place (hvm ▸ hy), h₅, h₄, h₃, h₂, SimpleElf.image]
    split_ifs with hb hr hd ht
    · rfl
    · rfl
    · rfl
    · rfl
    · exact absurd (hsome hb hr hd) ht
  · have hfree : ∀ v, OfLoad elf.secs garbage v → t₁.vm.place d v ≠ some y :=
      fun v hv => hvm ▸ hy v hv
    rw [hbss.outside y fun v hv => hvm₄ ▸ hfree v (hbssOf v hv),
      hrodat.outside y fun v hv => hvm₃ ▸ hfree v (hrodatOf v hv),
      hdat.outside y fun v hv => hvm₂ ▸ hfree v (hdatOf v hv),
      htxt.outside y fun v hv => hfree v (htxtOf v hv), hm.outside y hfree]

/-- **A load that succeeds leaves the program in memory.** The file is there, its parts lie in it
where the sum does not overflow, every byte of every section reads as the program has it, and no
byte of another page is written. -/
theorem loadElfSections_image (ho : Orderly lim t.vm) (hsecs : UserSections elf.secs)
    (hfree : MapsNone d elf.secs t.vm) {entry : UInt32}
    (hrun : loadElfSections toc kmem d elf garbage t = (.ok (.ok entry), t')) :
    entry = elf.eEntry ∧ ImageLoaded toc kmem d elf garbage t t' := by
  have hflags := elf.accessFlags.headerFlags
  have hfits : ∀ ms ∈ elf.secs, ms.vAddrStart.toNat + ms.len.toNat ≤ 2 ^ 32 := hsecs.fits
  have huser : ∀ ms ∈ elf.secs, ms.len ≠ 0 → userMemStart ≤ ms.vAddrStart.toNat := hsecs.user
  have hpost : wp (loadElfSections toc kmem d elf garbage) (fun r t' => ∀ entry, r = .ok entry →
      entry = elf.eEntry ∧ ImageLoaded toc kmem d elf garbage t t') (fun _ _ => True) t := by
    rw [loadElfSections, wp_bind]
    refine wp_imp (wp_run _ t) fun r t₁ hmap => ?_
    rw [wp_ite]
    refine ⟨fun _ entry h => (by cases h), fun hr => ?_⟩
    obtain ⟨s₁, hvm⟩ := clearing_ok hmap
    obtain rfl := mapSections_zero ho hsecs hflags (not_lt.mp hr) hvm
    have hm := mapped_of_run ho hsecs hflags elf.secs_ne_nil hfree hmap
    rw [wp_bind]
    refine wp_imp (wp_fillPart (hfits _ (.head _)) (huser _ (.head _))) fun b₁ t₂ h₂ => ?_
    rw [wp_ite]
    refine ⟨fun _ entry h => (by cases h), fun hb₁ => ?_⟩
    obtain ⟨e, hfile, htxt, hin₁⟩ := h₂ (by simpa using hb₁)
    rw [wp_bind]
    refine wp_imp (wp_fillPart (hfits _ (.tail _ (.head _))) (huser _ (.tail _ (.head _))))
      fun b₂ t₃ h₃ => ?_
    rw [wp_ite]
    refine ⟨fun _ entry h => (by cases h), fun hb₂ => ?_⟩
    obtain ⟨e₂, hfile₂, hdat, hin₂⟩ := h₃ (by simpa using hb₂)
    obtain rfl := Option.some.inj (hfile.symm.trans hfile₂)
    rw [wp_bind]
    refine wp_imp (wp_fillPart (hfits _ (.tail _ (.tail _ (.head _))))
      (huser _ (.tail _ (.tail _ (.head _))))) fun b₃ t₄ h₄ => ?_
    rw [wp_ite]
    refine ⟨fun _ entry h => (by cases h), fun hb₃ => ?_⟩
    obtain ⟨e₃, hfile₃, hrodat, hin₃⟩ := h₄ (by simpa using hb₃)
    obtain rfl := Option.some.inj (hfile.symm.trans hfile₃)
    rw [wp_bind]
    refine wp_imp (wp_storeBytes (hfits _ (.tail _ (.tail _ (.tail _ (.head _))))))
      fun _ t₅ hbss => ?_
    rintro entry ⟨⟩
    refine ⟨rfl, imageLoaded_of_fills hm hfile ?_ htxt hdat hrodat hbss⟩
    rintro hlen part (_ | ⟨_, _ | ⟨_, _ | ⟨_, ⟨⟩⟩⟩⟩)
    · exact hin₁ hlen
    · exact hin₂ hlen
    · exact hin₃ hlen
  exact wp_ok hpost hrun entry rfl

/-! ### A program of one page -/

/-- Stores to addresses that are all mapped return. -/
lemma storeBytes_returns (start len : UInt32) (f : ℕ → UInt8)
    (hfit : start.toNat + len.toNat ≤ 2 ^ 32)
    (hmapped : ∀ v, Spans start len v → t.vm.place d v ≠ none) :
    ∃ t', storeBytes d start f 0 len.toNat t = (.ok (), t') ∧ t'.vm = t.vm := by
  have h : wp (storeBytes d start f 0 len.toNat) (fun _ t' => t'.vm = t.vm) (fun _ _ => False) t :=
    wp_mono (storeBytes_spec hfit len.toNat 0 (Nat.zero_add _)) (fun _ _ hpost => hpost.1)
      fun _ _ he => by
        obtain ⟨v, hv, hnone⟩ := he
        exact hmapped v hv hnone
  obtain ⟨⟨⟩, t', hrun, hvm⟩ := wp_returns h
  exact ⟨t', hrun, hvm⟩

/-- A section whose addresses are mapped is filled. -/
lemma fillPart_returns (toc : List TocEntry) (kmem : UInt32 → UInt8) (name : String)
    (part : FilePart) {e : TocEntry}
    (hfind : (toc.find? fun e => e.execname = name) = some e)
    (hlen : e.numBytes (asInt part.off) (asInt part.len) % 2 ^ 32 = part.len.toNat)
    (hfit : part.start.toNat + part.len.toNat ≤ 2 ^ 32)
    (hmapped : ∀ v, Spans part.start part.len v → t.vm.place d v ≠ none) :
    ∃ t', fillPart toc kmem d name part t = (.ok true, t') ∧ t'.vm = t.vm := by
  obtain ⟨t', hrun, hvm⟩ := storeBytes_returns part.start part.len
    (fileByte kmem e (UInt32.ofNat (asInt part.off % 2 ^ 32).toNat)) hfit hmapped
  refine ⟨t', ?_, hvm⟩
  have hcall : getbytes toc kmem d name (asInt part.off) (asInt part.len) part.start t =
      (.ok (e.numBytes (asInt part.off) (asInt part.len)), t') := by
    rw [getbytes]
    simp only [hfind, hlen, Int.toNat_natCast]
    rw [run_bind hrun]
    rfl
  rw [fillPart, run_bind hcall, hlen]
  exact congrArg (fun b => ((.ok b : Except Fault Bool), t')) (decide_eq_true rfl)

/-- A program with its four sections in one page. -/
def onePage : SimpleElf :=
  ⟨"prog", 0x1000004, ⟨0x60, 8, 0x1000000⟩, ⟨0x68, 4, 0x1000010⟩, ⟨0x6c, 4, 0x1000020⟩,
    0x1000030, 16⟩

/-- Its file. -/
def onePageFile : TocEntry := ⟨"prog", 0x100000, 0x70⟩

/-- The bytes of the kernel's memory, by their addresses. -/
def addressBytes (a : UInt32) : UInt8 := a.toUInt8

lemma onePage_user : UserSections onePage.secs := by
  refine ⟨?_, ⟨_, .head _, by decide⟩, ?_⟩ <;>
    simp only [onePage, SimpleElf.secs, List.mem_cons, List.not_mem_nil, or_false, forall_eq_or_imp,
      forall_eq] <;> decide

/-- The program is loaded after boot, although the page held ones: the first byte of its code is
the byte of the file there, and the last byte of its fourth section is 0. -/
theorem loadElfSections_image_onePage :
    ∃ t', loadElfSections [onePageFile] addressBytes 0 onePage (0, 0) onesStore =
        (.ok (.ok 0x1000004), t') ∧
      ImageLoaded [onePageFile] addressBytes 0 onePage (0, 0) onesStore t' ∧
      (Store.getByte 0 0x1000000 t').1 = .ok 0x60 ∧ (Store.getByte 0 0x100003f t').1 = .ok 0 := by
  obtain ⟨hok, hentry⟩ := Prod.mk.inj (show
    ((ShrekOS.vmmMapSections 0 onePage.secs (0, 0) bootWithHeap).1.toOption,
      (ShrekOS.vmmMapSections 0 onePage.secs (0, 0) bootWithHeap).2.pageEntry 0 0x1000) =
        (some 0, some 0x1000005) from by decide +kernel)
  obtain ⟨s₁, hrun⟩ := run_of_toOption hok
  rw [hrun] at hentry
  have hplace : ∀ v, 0x1000000 ≤ v → v < 0x1001000 → s₁.place 0 v ≠ none := by
    intro v h1 h2
    have hpage : v / pageSize = 0x1000 := by
      simp only [pageSize]
      omega
    rw [place_eq_of_entry (by omega) (by rw [hpage]; exact hentry)]
    exact Option.some_ne_none _
  obtain ⟨t₁, hmem⟩ := memset_returns (t := { onesStore with vm := s₁ }) (d := 0)
    (0x1000000 + 1024) 1024 0 (by decide) fun v h1 h2 => hplace v (by omega) (by omega)
  have hmap : Store.vmmMapSections 0 onePage.secs (0, 0) onesStore = (.ok 0, t₁) :=
    clearing_eq_ok_iff.mpr ⟨s₁, hrun, hmem⟩
  have hvm₁ : t₁.vm = s₁ := (wp_ok (memset_spec _ _ _ (by decide)) hmem).1
  have hspans : ∀ start len : UInt32, 0x1000000 ≤ start.toNat →
      start.toNat + len.toNat ≤ 0x1001000 → ∀ v, Spans start len v → s₁.place 0 v ≠ none :=
    fun start len h1 h2 v hv => hplace v (h1.trans hv.1) (hv.2.trans_le h2)
  obtain ⟨t₂, htxt, hvm₂⟩ := fillPart_returns [onePageFile] addressBytes onePage.eFname
    onePage.txt (d := 0) (t := t₁) (e := onePageFile) rfl (by decide) (by decide)
    (hvm₁ ▸ hspans _ _ (by decide) (by decide))
  rw [hvm₁] at hvm₂
  obtain ⟨t₃, hdat, hvm₃⟩ := fillPart_returns [onePageFile] addressBytes onePage.eFname
    onePage.dat (d := 0) (t := t₂) (e := onePageFile) rfl (by decide) (by decide)
    (hvm₂ ▸ hspans _ _ (by decide) (by decide))
  rw [hvm₂] at hvm₃
  obtain ⟨t₄, hrodat, hvm₄⟩ := fillPart_returns [onePageFile] addressBytes onePage.eFname
    onePage.rodat (d := 0) (t := t₃) (e := onePageFile) rfl (by decide) (by decide)
    (hvm₃ ▸ hspans _ _ (by decide) (by decide))
  rw [hvm₃] at hvm₄
  obtain ⟨t₅, hbss, -⟩ := storeBytes_returns onePage.eBssstart onePage.eBsslen (fun _ => 0)
    (d := 0) (t := t₄) (by decide) (hvm₄ ▸ hspans _ _ (by decide) (by decide))
  have hload : loadElfSections [onePageFile] addressBytes 0 onePage (0, 0) onesStore =
      (.ok (.ok 0x1000004), t₅) := by
    rw [loadElfSections, run_bind hmap, if_neg (by decide), run_bind htxt, if_neg (by decide),
      run_bind hdat, if_neg (by decide), run_bind hrodat, if_neg (by decide), run_bind hbss]
    rfl
  obtain ⟨lim, ho⟩ := bootWithHeap_init.orderly
  obtain ⟨-, himage⟩ := loadElfSections_image (t := onesStore) ho onePage_user
    (bootWithHeap_init.mapsNone onePage_user) hload
  obtain ⟨e, hfile, -, hbytes⟩ := himage.image
  obtain rfl : onePageFile = e := Option.some.inj hfile
  refine ⟨t₅, hload, himage, ?_, ?_⟩
  · rw [(hbytes _ (.head _) 0x1000000 (by decide)).2]
    exact congrArg Except.ok (by decide)
  · rw [(hbytes _ (.tail _ (.tail _ (.tail _ (.head _)))) 0x100003f (by decide)).2]
    exact congrArg Except.ok (by decide)

end ShrekOS.LoadElf
