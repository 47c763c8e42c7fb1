/-
When `ms_get_bounding_section` finds a section of an address range.

* `MemSection.Meets`: a section has a byte in the range; `MemSection.meets_iff`: then it contains
  the first or the last address of the range, or it lies strictly inside;
* `MemSection.inBounds_iff`: what the test of an address says. It holds of every address when the
  section is empty and starts at address zero, since its last address wraps around;
* `findsOverlap_iff`: **when the lookup finds every overlap**.

The lookup only tests the two ends of the range, and it does not skip empty sections, as
`ms_get_bounding_addr` does.
-/
import ShrekOS.Mem.Sections

namespace ShrekOS

variable {secs : List MemSection} {ms : MemSection} {lo hi : UInt32}

namespace MemSection

/-- The address is one of the section. -/
def Holds (ms : MemSection) (a : ℕ) : Prop :=
  ms.vAddrStart.toNat ≤ a ∧ a < ms.vAddrStart.toNat + ms.len.toNat

/-- The section has a byte in the range, of which `lo` is the first address and `hi` the last. -/
def Meets (ms : MemSection) (lo hi : UInt32) : Prop :=
  ∃ a, ms.Holds a ∧ lo.toNat ≤ a ∧ a ≤ hi.toNat

/-- The section contains the first or the last address of the range. -/
def ContainsEnd (ms : MemSection) (lo hi : UInt32) : Prop := ms.Holds lo.toNat ∨ ms.Holds hi.toNat

/-- The section is not empty, and all of it lies between the ends of the range. -/
def StrictlyInside (ms : MemSection) (lo hi : UInt32) : Prop :=
  ms.len ≠ 0 ∧ lo.toNat < ms.vAddrStart.toNat ∧ ms.vAddrStart.toNat + ms.len.toNat ≤ hi.toNat

/-- The section is empty, at address zero. -/
def EmptyAtZero (ms : MemSection) : Prop := ms.len = 0 ∧ ms.vAddrStart = 0

instance (ms : MemSection) (a : ℕ) : Decidable (ms.Holds a) := inferInstanceAs (Decidable (_ ∧ _))

instance (ms : MemSection) (lo hi : UInt32) : Decidable (ms.ContainsEnd lo hi) :=
  inferInstanceAs (Decidable (_ ∨ _))

instance (ms : MemSection) (lo hi : UInt32) : Decidable (ms.StrictlyInside lo hi) :=
  inferInstanceAs (Decidable (_ ∧ _ ∧ _))

instance (ms : MemSection) : Decidable ms.EmptyAtZero := inferInstanceAs (Decidable (_ ∧ _))

lemma len_pos (hlen : ms.len ≠ 0) : 0 < ms.len.toNat :=
  Nat.pos_of_ne_zero fun h => hlen (UInt32.toNat_inj.mp h)

/-- A section with an address is not empty. -/
lemma Holds.nonempty {a : ℕ} (h : ms.Holds a) : ms.len ≠ 0 := by
  intro hlen
  obtain ⟨h1, h2⟩ := h
  rw [hlen] at h2
  exact absurd h2 (not_lt.mpr h1)

lemma Meets.nonempty (h : ms.Meets lo hi) : ms.len ≠ 0 := by
  obtain ⟨a, ha, -⟩ := h
  exact ha.nonempty

/-- **How a section meets a range**: at one of its ends, or strictly inside. -/
lemma meets_iff (hle : lo ≤ hi) :
    ms.Meets lo hi ↔ ms.ContainsEnd lo hi ∨ ms.StrictlyInside lo hi := by
  have hle := UInt32.le_iff_toNat_le.mp hle
  constructor
  · rintro ⟨a, ⟨h1, h2⟩, h3, h4⟩
    by_cases hends : ms.ContainsEnd lo hi
    · exact .inl hends
    · simp only [ContainsEnd, Holds, not_or, not_and, not_lt] at hends
      refine .inr ⟨Holds.nonempty ⟨h1, h2⟩, ?_, ?_⟩
      · by_contra hlow
        have := hends.1 (not_lt.mp hlow)
        omega
      · exact hends.2 (h1.trans h4)
  · rintro ((hlo | hhi) | ⟨hlen, h1, h2⟩)
    · exact ⟨lo.toNat, hlo, le_rfl, hle⟩
    · exact ⟨hi.toNat, hhi, hle, le_rfl⟩
    · have hpos := len_pos hlen
      exact ⟨ms.vAddrStart.toNat, ⟨le_rfl, by omega⟩, h1.le, by omega⟩

/-- **The test of an address** in the lookup. -/
lemma inBounds_iff (hfits : ms.vAddrStart.toNat + ms.len.toNat ≤ 2 ^ 32) {a : UInt32} :
    (ms.vAddrStart ≤ a ∧ a ≤ ms.high) ↔ ms.Holds a.toNat ∨ ms.EmptyAtZero := by
  rw [UInt32.le_iff_toNat_le, UInt32.le_iff_toNat_le]
  by_cases hlen : ms.len = 0
  · have hno : ¬ ms.Holds a.toNat := fun h => h.nonempty hlen
    have hone : (1 : UInt32).toNat = 1 := rfl
    have hzero : (0 : UInt32).toNat = 0 := rfl
    -- the last address of an empty section is the one before its first
    have hhigh : ms.high.toNat = (ms.vAddrStart.toNat + (2 ^ 32 - 1)) % 2 ^ 32 := by
      rw [high, hlen, UInt32.toNat_add, UInt32.toNat_sub, hone, hzero, Nat.add_mod_mod]
      rfl
    have hstart := ms.vAddrStart.toNat_lt
    have ha := a.toNat_lt
    have hempty : ms.EmptyAtZero ↔ ms.vAddrStart.toNat = 0 :=
      ⟨fun h => by rw [h.2, hzero], fun h => ⟨hlen, UInt32.toNat_inj.mp h⟩⟩
    rw [hhigh, hempty, or_iff_right hno]
    omega
  · obtain ⟨hhigh, hpos⟩ := ms.toNat_high hlen hfits
    have hno : ¬ ms.EmptyAtZero := fun h => hlen h.1
    rw [hhigh, or_iff_left hno, Holds]
    omega

end MemSection

/-! ### The lookup -/

/-- The sections that the lookup would return. -/
lemma boundingSection_eq (hne : secs ≠ []) (hle : lo ≤ hi)
    (hfits : ∀ ms ∈ secs, ms.vAddrStart.toNat + ms.len.toNat ≤ 2 ^ 32) :
    (msGetBoundingSection secs lo hi = (1, none) ∧
        ∀ ms ∈ secs, ¬ ms.ContainsEnd lo hi ∧ ¬ ms.EmptyAtZero) ∨
      ∃ pre ms post, secs = pre ++ ms :: post ∧
        msGetBoundingSection secs lo hi = (0, some ms) ∧
        (ms.ContainsEnd lo hi ∨ ms.EmptyAtZero) ∧
        ∀ e ∈ pre, ¬ e.ContainsEnd lo hi ∧ ¬ e.EmptyAtZero := by
  have htest : ∀ ms ∈ secs, ((ms.vAddrStart ≤ lo ∧ lo ≤ ms.high) ∨
      (ms.vAddrStart ≤ hi ∧ hi ≤ ms.high)) ↔ ms.ContainsEnd lo hi ∨ ms.EmptyAtZero := by
    intro ms hms
    rw [MemSection.inBounds_iff (hfits ms hms), MemSection.inBounds_iff (hfits ms hms),
      or_or_or_comm, or_self]
    exact Iff.rfl
  have hvalid : ¬ (secs = [] ∨ lo > hi) := not_or.mpr ⟨hne, UInt32.not_lt.mpr hle⟩
  rw [msGetBoundingSection, if_neg hvalid]
  rcases hfind : secs.find? _ with _ | ms
  · refine .inl ⟨rfl, fun ms hms => ?_⟩
    have hno := List.find?_eq_none.mp hfind ms hms
    rw [decide_eq_true_eq, htest ms hms, not_or] at hno
    exact hno
  · obtain ⟨hms, pre, post, rfl, hpre⟩ := List.find?_eq_some_iff_append.mp hfind
    refine .inr ⟨pre, ms, post, rfl, rfl, ?_, fun e he => ?_⟩
    · exact (htest ms (by simp)).mp (of_decide_eq_true hms)
    · have hno := hpre e he
      rw [Bool.not_eq_true', decide_eq_false_iff_not, htest e (by simp [he]), not_or] at hno
      exact hno

/-- The range has a byte of a section. -/
def SomeMeets (secs : List MemSection) (lo hi : UInt32) : Prop :=
  ∃ ms ∈ secs, ms.len ≠ 0 ∧ ms.Meets lo hi

/-- **The lookup finds every overlap**: it returns zero with a section that meets the range when
one that is not empty does, and one otherwise. A range in which it finds one meets the bounds of
the sections that are not empty. -/
structure FindsOverlap (secs : List MemSection) (lo hi : UInt32) : Prop where
  found : ((msGetBoundingSection secs lo hi).1 = 0 ∧
    ∃ ms ∈ secs, (msGetBoundingSection secs lo hi).2 = some ms ∧ ms.Meets lo hi) ↔
      SomeMeets secs lo hi
  missed : ¬ SomeMeets secs lo hi → (msGetBoundingSection secs lo hi).1 = 1
  bounded : (msGetBoundingSection secs lo hi).1 = 0 →
    ∃ low high, msGetBoundingAddr secs = some (low, high) ∧ low ≤ hi ∧ lo ≤ high

/-- **The condition**: there are sections, and one that contains an end of the range has no empty
section at address zero before it; or no section is one of these, nor strictly inside. -/
def FoundByEnds (secs : List MemSection) (lo hi : UInt32) : Prop :=
  secs ≠ [] ∧
    ((∃ pre ms post, secs = pre ++ ms :: post ∧ ms.ContainsEnd lo hi ∧
        ∀ e ∈ pre, ¬ e.EmptyAtZero) ∨
      ∀ ms ∈ secs, ¬ ms.EmptyAtZero ∧ ¬ ms.StrictlyInside lo hi)

/-- The bounds of the sections are bounds of those that meet a range. -/
lemma bounds_meet (hfits : ∀ ms ∈ secs, ms.vAddrStart.toNat + ms.len.toNat ≤ 2 ^ 32)
    (h : SomeMeets secs lo hi) :
    ∃ low high, msGetBoundingAddr secs = some (low, high) ∧ low ≤ hi ∧ lo ≤ high := by
  obtain ⟨ms, hmem, hlen, a, ⟨h1, h2⟩, h3, h4⟩ := h
  obtain ⟨-, hlow, -⟩ := boundingAddr_low secs 0xFFFFFFFF 0
  obtain ⟨-, hhigh, -⟩ := boundingAddr_high secs 0xFFFFFFFF 0
  obtain ⟨hms, hpos⟩ := ms.toNat_high hlen (hfits ms hmem)
  have hlow := UInt32.le_iff_toNat_le.mp (hlow ms hmem hlen)
  have hhigh := UInt32.le_iff_toNat_le.mp (hhigh ms hmem hlen)
  refine ⟨_, _, if_neg (UInt32.not_lt.mpr ?_), ?_, ?_⟩ <;> rw [UInt32.le_iff_toNat_le] <;> omega

/-- The range is not found when an empty section at address zero comes first. -/
lemma not_foundByEnds {pre post : List MemSection} (hzero : ms.EmptyAtZero)
    (hend : ¬ ms.ContainsEnd lo hi)
    (hpre : ∀ e ∈ pre, ¬ e.ContainsEnd lo hi ∧ ¬ e.EmptyAtZero) :
    ¬ FoundByEnds (pre ++ ms :: post) lo hi := by
  rintro ⟨-, ⟨pre', ms', post', heq, hend', hpre'⟩ | hall⟩
  · rcases List.append_eq_append_iff.mp heq with ⟨l, rfl, hl⟩ | ⟨l, rfl, hl⟩
    · -- the section with the end is not before the empty one, so it is behind it or the same
      rcases List.cons_eq_append_iff.mp hl with ⟨rfl, hl⟩ | ⟨l', rfl, -⟩
      · obtain ⟨rfl, -⟩ := List.cons.inj hl
        exact hend hend'
      · exact hpre' ms (by simp) hzero
    · rcases List.cons_eq_append_iff.mp hl with ⟨rfl, hl⟩ | ⟨l', rfl, -⟩
      · obtain ⟨rfl, -⟩ := List.cons.inj hl
        exact hend hend'
      · exact (hpre ms' (by simp)).1 hend'
  · exact (hall ms (by simp)).1 hzero

/-- **When the lookup finds every overlap**: when a section that contains an end of the range
comes before the empty ones at address zero, or there is neither, and none strictly inside. -/
theorem findsOverlap_iff (hfits : ∀ ms ∈ secs, ms.vAddrStart.toNat + ms.len.toNat ≤ 2 ^ 32)
    (hle : lo ≤ hi) : FindsOverlap secs lo hi ↔ FoundByEnds secs lo hi := by
  by_cases hne : secs = []
  · -- without sections the call is refused
    refine iff_of_false (fun h => ?_) fun h => h.1 hne
    subst hne
    have hmissed : (-1 : ℤ) = 1 := h.missed (by rintro ⟨ms, hms, -⟩; cases hms)
    exact absurd hmissed (by decide)
  rcases boundingSection_eq hne hle hfits with ⟨heq, hall⟩ | ⟨pre, ms, post, hsecs, heq, hms, hpre⟩
  · constructor
    · intro h
      refine ⟨hne, .inr fun ms hms => ⟨(hall ms hms).2, fun hinside => ?_⟩⟩
      have hmeets := (MemSection.meets_iff hle).mpr (.inr hinside)
      have hzero := (h.found.mpr ⟨ms, hms, hinside.1, hmeets⟩).1
      rw [heq] at hzero
      exact absurd hzero (by decide)
    · rintro ⟨-, ⟨pre, ms, post, hsecs, hend, -⟩ | hnone⟩
      · exact absurd hend (hall ms (by simp [hsecs])).1
      · have hno : ¬ SomeMeets secs lo hi := by
          rintro ⟨ms, hms, -, hmeets⟩
          exact ((MemSection.meets_iff hle).mp hmeets).elim (hall ms hms).1 (hnone ms hms).2
        refine ⟨iff_of_false (fun h => ?_) hno, fun _ => by rw [heq], fun h => ?_⟩
        · rw [heq] at h
          exact absurd h.1 (by decide)
        · rw [heq] at h
          exact absurd h (by decide)
  · by_cases hend : ms.ContainsEnd lo hi
    · have hmem : ms ∈ secs := by simp [hsecs]
      have hmeets := (MemSection.meets_iff hle).mpr (.inl hend)
      have hsome : SomeMeets secs lo hi := ⟨ms, hmem, hmeets.nonempty, hmeets⟩
      refine iff_of_true ⟨iff_of_true ?_ hsome, fun hno => absurd hsome hno, fun _ => ?_⟩ ?_
      · rw [heq]
        exact ⟨rfl, ms, hmem, rfl, hmeets⟩
      · exact bounds_meet hfits hsome
      · exact ⟨hne, .inl ⟨pre, ms, post, hsecs, hend, fun e he => (hpre e he).2⟩⟩
    · have hzero := hms.resolve_left hend
      refine iff_of_false (fun h => ?_) ?_
      · by_cases hsome : SomeMeets secs lo hi
        · obtain ⟨-, ms', -, hres, hmeets⟩ := h.found.mpr hsome
          rw [heq] at hres
          obtain rfl := Option.some.inj hres
          exact hmeets.nonempty hzero.1
        · have hcode := h.missed hsome
          rw [heq] at hcode
          exact Int.zero_ne_one hcode
      · rw [hsecs]
        exact not_foundByEnds hzero hend hpre

/-- The text of a program, without any data, and constants behind it. -/
def textAndConstants : List MemSection :=
  [⟨0x1000000, 0x1800, 5, 7⟩, ⟨0, 0, 7, 7⟩, ⟨0x1002000, 0x100, 5, 7⟩]

/-- The second page of the text is found. -/
theorem findsOverlap_iff_text : FindsOverlap textAndConstants 0x1001000 0x1001FFF := by
  have hfits : ∀ ms ∈ textAndConstants, ms.vAddrStart.toNat + ms.len.toNat ≤ 2 ^ 32 := by decide
  have htext : FoundByEnds textAndConstants 0x1001000 0x1001FFF :=
    ⟨List.cons_ne_nil _ _, .inl ⟨[], _, _, rfl, by decide, fun e he => absurd he List.not_mem_nil⟩⟩
  exact (findsOverlap_iff hfits (by decide)).mpr htext

/-- **Sections that are not found**: one that is strictly inside the range, and one that has an
empty section at address zero before it. -/
theorem not_findsOverlap :
    (⟨0x1000800, 0x100, 5, 7⟩ : MemSection).Meets 0x1000000 0x1000FFF ∧
      ¬ FindsOverlap [⟨0x1000800, 0x100, 5, 7⟩] 0x1000000 0x1000FFF ∧
      (∀ ms ∈ textAndConstants, ms.vAddrStart.toNat + ms.len.toNat ≤ 2 ^ 32) ∧
      ¬ FindsOverlap textAndConstants 0x1002000 0x1002FFF := by
  have hmeets : (⟨0x1000800, 0x100, 5, 7⟩ : MemSection).Meets 0x1000000 0x1000FFF :=
    ⟨0x1000800, by decide, by decide, by decide⟩
  refine ⟨hmeets, fun h => ?_, by decide, fun h => ?_⟩
  · have hcode := (h.found.mpr ⟨_, .head _, hmeets.nonempty, hmeets⟩).1
    exact absurd hcode (by decide)
  · have hconst : (⟨0x1002000, 0x100, 5, 7⟩ : MemSection).Meets 0x1002000 0x1002FFF :=
      ⟨0x1002000, by decide, by decide, by decide⟩
    obtain ⟨-, ms, -, hres, a, ha, -⟩ :=
      h.found.mpr ⟨_, .tail _ (.tail _ (.head _)), hconst.nonempty, hconst⟩
    have hempty : (msGetBoundingSection textAndConstants 0x1002000 0x1002FFF).2 =
        some ⟨0, 0, 7, 7⟩ := rfl
    rw [hempty] at hres
    obtain rfl := Option.some.inj hres
    exact ha.nonempty rfl

end ShrekOS
