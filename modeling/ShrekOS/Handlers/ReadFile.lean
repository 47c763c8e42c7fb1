/-
`readfile`: the bytes that `getbytes` of `loader/loader.c` copies.

* `TocEntry.contents`, `Io.HasFile` and `Io.Receives`: a file in the memory, and a buffer that
  can take bytes of it;
* `ReadsExactly`: a call returns the number of bytes there are, and copies these;
* `getbytes_copies`, `getbytes_elsewhere`: **the call within `INT_MAX` and the file**, and what
  the clamp makes of any other;
* `readChunks`, `pieces`: a file read in successive calls, and the file cut into pieces;
* `readfile_iff`: **exactly when a call reads the file**, and when successive calls do.
-/
import ShrekOS.Handlers.UserPointers

namespace ShrekOS

open Kit Kit.Cmd Io

/-- `INT_MAX`. -/
def intMax : ℤ := 2 ^ 31 - 1

/-! ### A file and a buffer -/

/-- The byte of a file at an offset. -/
def TocEntry.byte (e : TocEntry) (s : Io) (j : ℕ) : UInt8 := s.mem (e.execbytes + UInt32.ofNat j)

/-- The bytes of a file. -/
def TocEntry.contents (e : TocEntry) (s : Io) : List UInt8 :=
  (List.range e.execlen.toNat).map (e.byte s)

namespace Io

/-- The bytes of a file are there; its length is an `int`. -/
structure HasFile (s : Io) (e : TocEntry) : Prop where
  nonneg : 0 ≤ e.execlen
  small : e.execlen ≤ intMax
  readable : ∀ j < e.execlen.toNat, s.present (e.execbytes + UInt32.ofNat j)

/-- The first `n` bytes of a buffer are there, and are none of the file's. -/
structure Receives (s : Io) (e : TocEntry) (buf : UInt32) (n : ℕ) : Prop where
  writable : ∀ i < n, s.present (buf + UInt32.ofNat i)
  apart : ∀ i < n, ∀ j < e.execlen.toNat, buf + UInt32.ofNat i ≠ e.execbytes + UInt32.ofNat j

/-- The state after the first `n` bytes of `f` were copied. -/
def filled (s : Io) (dst : UInt32) (f : ℕ → UInt8) (n : ℕ) : Io :=
  { s with mem := fun a => if (a - dst).toNat < n then f (a - dst).toNat else s.mem a }

/-- The addresses that a copy stores to. -/
def span (dst : UInt32) (n : ℕ) : List UInt32 := (List.range n).map fun i => dst + UInt32.ofNat i

end Io

/-- The number of bytes from an offset on, up to `count`. -/
def fileAnswer (e : TocEntry) (count offset : ℤ) : ℤ := max 0 (min count (e.execlen - offset))

/-- A call of `readfile` copies inside of the file, returns the number of bytes there are, and
changes nothing but these bytes of the buffer. -/
def ReadsExactly (s : Io) (name : String) (e : TocEntry) (buf : UInt32) (count offset : ℤ) :
    Prop :=
  (∀ i < (e.numBytes offset count % 2 ^ 32).toNat, offset + i < e.execlen) ∧
  wp (syscallReadfile (.text name) buf count offset)
    (fun r t => r = fileAnswer e count offset ∧
      t = (s.filled buf (fun i => e.byte s (offset.toNat + i)) r.toNat, span buf r.toNat))
    (fun _ _ => False) (s, [])

variable {s : Io} {e : TocEntry} {buf dst : UInt32} {f : ℕ → UInt8} {n m : ℕ} {l : List UInt32}
  {name : String} {count offset : ℤ}

lemma Io.Receives.mono (h : s.Receives e buf n) (hm : m ≤ n) : s.Receives e buf m :=
  ⟨fun i hi => h.writable i (hi.trans_le hm), fun i hi => h.apart i (hi.trans_le hm)⟩

/-! ### The copy -/

/-- The place of an address in a buffer. -/
lemma sub_toNat_eq_iff {a : UInt32} {k : ℕ} (hk : k < 2 ^ 32) :
    (a - dst).toNat = k ↔ a = dst + UInt32.ofNat k := by
  rw [← UInt32.toNat_ofNat_of_lt' (show k < UInt32.size from hk), UInt32.toNat_inj,
    UInt32.toNat_ofNat_of_lt' (show k < UInt32.size from hk), UInt32.sub_eq_iff_eq_add,
    UInt32.add_comm]

lemma filled_zero (s : Io) (dst : UInt32) (f : ℕ → UInt8) : s.filled dst f 0 = s := by
  simp [filled]

/-- An address outside of the buffer. -/
lemma filled_mem_of_apart {a : UInt32} (hn : n ≤ 2 ^ 32)
    (ha : ∀ i < n, dst + UInt32.ofNat i ≠ a) : (s.filled dst f n).mem a = s.mem a := by
  refine if_neg fun hlt => ha _ hlt ?_
  exact ((sub_toNat_eq_iff (hlt.trans_le hn)).mp rfl).symm

/-- A byte of the buffer. -/
lemma filled_mem_of_lt {i : ℕ} (hn : n ≤ 2 ^ 32) (hi : i < n) :
    (s.filled dst f n).mem (dst + UInt32.ofNat i) = f i := by
  have hplace : (dst + UInt32.ofNat i - dst).toNat = i :=
    (sub_toNat_eq_iff (hi.trans_le hn)).mpr rfl
  simp only [filled, hplace, if_pos hi]

/-- One more byte. -/
lemma filled_succ {k : ℕ} (hk : k < 2 ^ 32) :
    { s.filled dst f k with mem := fun a => if a ∈ [dst + UInt32.ofNat k] then f k
        else (s.filled dst f k).mem a } = s.filled dst f (k + 1) := by
  have hmem : (fun a => if a ∈ [dst + UInt32.ofNat k] then f k else (s.filled dst f k).mem a) =
      (s.filled dst f (k + 1)).mem := by
    funext a
    by_cases ha : (a - dst).toNat = k
    · have hin := (sub_toNat_eq_iff hk).mp ha
      subst hin
      rw [if_pos (List.mem_singleton_self _), filled_mem_of_lt hk k.lt_succ_self]
    · have hout : a ∉ [dst + UInt32.ofNat k] := fun h =>
        ha ((sub_toNat_eq_iff hk).mpr (List.mem_singleton.mp h))
      rw [if_neg hout]
      change (if (a - dst).toNat < k then _ else _) = if (a - dst).toNat < k + 1 then _ else _
      simp only [Nat.lt_succ_iff_lt_or_eq, or_iff_left ha]
  exact congrArg (fun g => { s with mem := g }) hmem

lemma span_succ (dst : UInt32) (k : ℕ) :
    span dst (k + 1) = span dst k ++ [dst + UInt32.ofNat k] := by
  simp [span, List.range_succ]

/-- **`memcpy`** of bytes that are there into a buffer that is there. -/
lemma wp_memcpy_filled {load : ℕ → IoM UInt8} (hn : n ≤ 2 ^ 32)
    (hpres : ∀ i < n, s.present (dst + UInt32.ofNat i))
    (hload : ∀ i < n, ∀ l, wp (load i) (fun v t => v = f i ∧ t = (s.filled dst f i, l))
      (fun _ _ => False) (s.filled dst f i, l)) :
    wp (Io.memcpy dst n load) (fun _ t => t = (s.filled dst f n, l ++ span dst n))
      (fun _ _ => False) (s, l) := by
  refine wp_upTo _ (fun k t => t = (s.filled dst f k, l ++ span dst k)) n ?_ ?_
  · rw [filled_zero]
    simp [span]
  · rintro k _ hk rfl
    rw [wp_bind]
    refine wp_imp (hload k hk _) ?_
    rintro _ _ ⟨rfl, rfl⟩
    rw [wp_store]
    refine ⟨fun _ => ?_, fun habs => habs ?_⟩
    · rw [span_succ, ← filled_succ (hk.trans_le hn), List.append_assoc]
    · intro a ha
      rw [List.mem_singleton.mp ha]
      exact hpres k hk

/-! ### One call -/

/-- A call that finds its file. -/
lemma wp_syscallReadfile {Q : ℤ → Io × List UInt32 → Prop} {E : Trap → Io × List UInt32 → Prop}
    (he : s.toc.find? (fun e => e.execname = name) = some e) (hc : 0 ≤ count) (ho : 0 ≤ offset) :
    wp (syscallReadfile (.text name) buf count offset) Q E (s, l) ↔
      wp (Io.memcpy buf (e.numBytes offset count % 2 ^ 32).toNat (e.load offset))
        (fun _ => Q (e.numBytes offset count)) E (s, l) := by
  rw [syscallReadfile, wp_ite, and_iff_right (fun h => absurd h (by omega)), getbytes,
    imp_iff_right (by omega), wp_bind, wp_read, he, wp_bind]
  rfl

/-- The number of bytes, within the file and `INT_MAX`. -/
lemma numBytes_eq (hfile : s.HasFile e) (hc : 0 ≤ count) (ho : 0 ≤ offset)
    (hin : offset ≤ e.execlen) (hmax : count + offset ≤ intMax) :
    e.numBytes offset count = fileAnswer e count offset := by
  have hsmall := hfile.small
  simp only [intMax] at hsmall hmax
  rw [TocEntry.numBytes, fileAnswer, Int.bmod_eq_of_le (by omega) (by omega),
    Int.bmod_eq_of_le (by omega) (by omega)]
  split_ifs <;> omega

/-- The number of bytes, past the file or `INT_MAX`: a negative one, or more than there are. -/
lemma numBytes_ne (hfile : s.HasFile e) (hc : 0 ≤ count) (hc' : count ≤ intMax)
    (ho : 0 ≤ offset) (ho' : offset ≤ intMax)
    (hout : ¬ (offset ≤ e.execlen ∧ count + offset ≤ intMax)) :
    e.numBytes offset count ≠ fileAnswer e count offset := by
  have hnonneg := hfile.nonneg
  have hsmall := hfile.small
  simp only [intMax] at hsmall hc' ho' hout
  rw [TocEntry.numBytes, fileAnswer]
  by_cases hmax : count + offset ≤ 2 ^ 31 - 1
  · rw [Int.bmod_eq_of_le (by omega) (by omega), Int.bmod_eq_of_le (by omega) (by omega)]
    split_ifs <;> omega
  · -- the sum wraps around to a negative number, which is not past the file
    have hwrap : Int.bmod (count + offset) (2 ^ 32) = count + offset - 2 ^ 32 := by
      calc Int.bmod (count + offset) (2 ^ 32)
          = Int.bmod (count + offset - (2 ^ 32 : ℕ)) (2 ^ 32) := (Int.sub_bmod_right _ _).symm
        _ = count + offset - 2 ^ 32 := Int.bmod_eq_of_le (by omega) (by omega)
    rw [hwrap, if_neg (by omega)]
    omega

/-- The loads of a copy read the bytes of the file. -/
lemma wp_load_filled (hfile : s.HasFile e) (ho : 0 ≤ offset) (ho' : offset ≤ intMax)
    (hbuf : s.Receives e buf n) (hn : n ≤ 2 ^ 32) {i : ℕ} (hi : i < n)
    (hin : offset + i < e.execlen) (l : List UInt32) :
    wp (e.load offset i)
      (fun v t => v = e.byte s (offset.toNat + i) ∧
        t = (s.filled buf (fun i => e.byte s (offset.toNat + i)) i, l))
      (fun _ _ => False) (s.filled buf (fun i => e.byte s (offset.toNat + i)) i, l) := by
  have hplace : e.execbytes + UInt32.ofNat (offset % 2 ^ 32).toNat + UInt32.ofNat i =
      e.execbytes + UInt32.ofNat (offset.toNat + i) := by
    rw [Int.emod_eq_of_lt ho (by simp only [intMax] at ho'; omega), UInt32.ofNat_add,
      UInt32.add_assoc]
  have hlt : offset.toNat + i < e.execlen.toNat := by omega
  simp only [TocEntry.load, access, wp_bind, wp_read, wp_require, id_eq, List.mem_singleton,
    forall_eq, hplace]
  refine ⟨fun _ => ⟨?_, trivial⟩, fun habs => habs (hfile.readable _ hlt)⟩
  exact filled_mem_of_apart (by omega) fun j hj => hbuf.apart j (hj.trans hi) _ hlt

/-- **A call within the file and `INT_MAX`** copies what there is. -/
lemma getbytes_copies (he : s.toc.find? (fun e => e.execname = name) = some e)
    (hfile : s.HasFile e) (hc : 0 ≤ count) (ho : 0 ≤ offset) (hin : offset ≤ e.execlen)
    (hmax : count + offset ≤ intMax)
    (hbuf : s.Receives e buf (fileAnswer e count offset).toNat) :
    wp (syscallReadfile (.text name) buf count offset)
      (fun r t => r = fileAnswer e count offset ∧
        t = (s.filled buf (fun i => e.byte s (offset.toNat + i)) r.toNat, l ++ span buf r.toNat))
      (fun _ _ => False) (s, l) := by
  have hsmall := hfile.small
  have hans : 0 ≤ fileAnswer e count offset ∧ fileAnswer e count offset ≤ e.execlen - offset := by
    unfold fileAnswer
    omega
  simp only [intMax] at hsmall hmax
  have hmod : fileAnswer e count offset % 2 ^ 32 = fileAnswer e count offset :=
    Int.emod_eq_of_lt hans.1 (by omega)
  rw [wp_syscallReadfile he hc ho, numBytes_eq hfile hc ho hin (by simpa [intMax] using hmax), hmod]
  refine wp_imp (wp_memcpy_filled (by omega) hbuf.writable fun i hi l =>
    wp_load_filled hfile ho (by simp only [intMax]; omega) hbuf (by omega) hi (by omega) l) ?_
  rintro _ t rfl
  exact ⟨rfl, rfl⟩

/-- **Any other call** does not return the number of bytes there are, if it returns. -/
lemma getbytes_elsewhere (he : s.toc.find? (fun e => e.execname = name) = some e)
    (hfile : s.HasFile e) (hc : 0 ≤ count) (hc' : count ≤ intMax) (ho : 0 ≤ offset)
    (ho' : offset ≤ intMax) (hout : ¬ (offset ≤ e.execlen ∧ count + offset ≤ intMax)) :
    wlp (syscallReadfile (.text name) buf count offset)
      (fun r _ => r ≠ fileAnswer e count offset) (s, l) := by
  rw [wlp, wp_syscallReadfile he hc ho]
  exact wp_any _ (fun _ _ => numBytes_ne hfile hc hc' ho ho' hout) fun _ _ => trivial

/-- When one call reads the file. -/
lemma readsExactly_iff (he : s.toc.find? (fun e => e.execname = name) = some e)
    (hfile : s.HasFile e) (hc : 0 ≤ count) (hc' : count ≤ intMax) (ho : 0 ≤ offset)
    (ho' : offset ≤ intMax) (hbuf : s.Receives e buf (fileAnswer e count offset).toNat) :
    ReadsExactly s name e buf count offset ↔ offset ≤ e.execlen ∧ count + offset ≤ intMax := by
  constructor
  · rintro ⟨-, hwp⟩
    by_contra hout
    obtain ⟨r, t, hrun, hr, -⟩ := wp_returns hwp
    exact wp_ok (getbytes_elsewhere he hfile hc hc' ho ho' hout) hrun hr
  · rintro ⟨hin, hmax⟩
    refine ⟨fun i hi => ?_, getbytes_copies he hfile hc ho hin hmax hbuf⟩
    rw [numBytes_eq hfile hc ho hin hmax] at hi
    have hsmall := hfile.small
    unfold fileAnswer at hi
    simp only [intMax] at hsmall hmax
    omega

/-! ### Successive calls -/

/-- A program that reads a file in successive calls, each with its buffer and its `count`: what
each call returned, with the bytes that it left. -/
def readChunks (name : String) : List (UInt32 × ℤ) → ℤ → IoM (List (ℤ × List UInt8))
  | [], _ => pure []
  | (buf, count) :: chunks, offset => do
      let r ← syscallReadfile (.text name) buf count offset
      let bytes ← read fun s => (span buf r.toNat).map s.mem
      let rest ← readChunks name chunks (offset + r)
      pure ((r, bytes) :: rest)

/-- The bytes of a file cut into successive pieces; there are none left past its end. -/
def pieces (file : List UInt8) : List ℤ → List (List UInt8)
  | [] => []
  | c :: cs => file.take c.toNat :: pieces (file.drop c.toNat) cs

/-- What the successive calls should return and leave. -/
def pieceAnswers (file : List UInt8) (cs : List ℤ) : List (ℤ × List UInt8) :=
  (pieces file cs).map fun p => ((p.length : ℤ), p)

/-- Successive calls from the beginning of a file return its pieces, which make up the file. -/
def ReadsInChunks (s : Io) (name : String) (e : TocEntry) (chunks : List (UInt32 × ℤ)) : Prop :=
  wp (readChunks name chunks 0)
    (fun r _ => r = pieceAnswers (e.contents s) (chunks.map Prod.snd) ∧
      (r.map Prod.snd).flatten = (e.contents s).take (chunks.map Prod.snd).sum.toNat)
    (fun _ _ => False) (s, [])

/-- **The condition** on successive calls: no offset and count add up to more than `INT_MAX`. -/
def ChunksFit (e : TocEntry) : List ℤ → ℤ → Prop
  | [], _ => True
  | c :: cs, offset => c + offset ≤ intMax ∧ ChunksFit e cs (min (offset + c) e.execlen)

instance decidableChunksFit (e : TocEntry) :
    ∀ (cs : List ℤ) (offset : ℤ), Decidable (ChunksFit e cs offset)
  | [], _ => instDecidableTrue
  | c :: cs, offset =>
      have := decidableChunksFit e cs (min (offset + c) e.execlen)
      inferInstanceAs (Decidable (c + offset ≤ intMax ∧ ChunksFit e cs _))

/-- The chunks have positive sizes, and buffers for what the file has of them. -/
def Io.TakesChunks (s : Io) (e : TocEntry) (chunks : List (UInt32 × ℤ)) : Prop :=
  ∀ c ∈ chunks, 0 < c.2 ∧ c.2 ≤ intMax ∧ s.Receives e c.1 (min c.2 e.execlen).toNat

/-- The pieces of a file make it up. -/
lemma flatten_pieces {cs : List ℤ} (hcs : ∀ c ∈ cs, 0 ≤ c) (file : List UInt8) :
    (pieces file cs).flatten = file.take cs.sum.toNat := by
  induction cs generalizing file with
  | nil => simp [pieces]
  | cons c cs ih =>
      have hc := hcs c (List.mem_cons_self ..)
      have hsum : 0 ≤ cs.sum := List.sum_nonneg fun x hx => hcs x (List.mem_cons_of_mem _ hx)
      rw [pieces, List.flatten_cons, ih fun x hx => hcs x (List.mem_cons_of_mem _ hx),
        List.sum_cons, Int.toNat_add hc hsum, List.take_add]

lemma length_contents (e : TocEntry) (s : Io) : (e.contents s).length = e.execlen.toNat := by
  simp [TocEntry.contents]

/-- A copy into a buffer leaves the file as it was. -/
lemma contents_filled (hn : n ≤ 2 ^ 32) (hbuf : s.Receives e buf n) :
    e.contents (s.filled buf f n) = e.contents s := by
  refine List.map_congr_left fun j hj => ?_
  exact filled_mem_of_apart hn fun i hi => hbuf.apart i hi j (List.mem_range.mp hj)

/-- What a call leaves in its buffer is the next piece. -/
lemma map_span_filled (hn : n ≤ 2 ^ 32) {o c : ℕ} (hlen : n = min c (e.execlen.toNat - o)) :
    (span buf n).map (s.filled buf (fun i => e.byte s (o + i)) n).mem =
      ((e.contents s).drop o).take c := by
  refine List.ext_getElem ?_ fun i h₁ _ => ?_
  · simp [span, length_contents, hlen]
  · have hi : i < n := by simpa [span] using h₁
    simp only [span, List.getElem_map, List.getElem_range, List.getElem_take, List.getElem_drop,
      TocEntry.contents]
    exact filled_mem_of_lt hn hi

/-- The next pieces, from the offset after a call. -/
lemma pieceAnswers_cons (hin : 0 ≤ offset ∧ offset ≤ e.execlen) {c : ℤ} (hc : 0 ≤ c)
    (cs : List ℤ) :
    pieceAnswers ((e.contents s).drop offset.toNat) (c :: cs) =
      (fileAnswer e c offset, ((e.contents s).drop offset.toNat).take c.toNat) ::
        pieceAnswers ((e.contents s).drop (min (offset + c) e.execlen).toNat) cs := by
  have hcount : ((((e.contents s).drop offset.toNat).take c.toNat).length : ℤ) =
      fileAnswer e c offset := by
    rw [List.length_take, List.length_drop, length_contents, fileAnswer]
    omega
  have hdrop : ((e.contents s).drop offset.toNat).drop c.toNat =
      (e.contents s).drop (min (offset + c) e.execlen).toNat := by
    rw [List.drop_drop]
    rcases le_total (offset + c) e.execlen with hle | hle
    · rw [min_eq_left hle, Int.toNat_add hin.1 hc]
    · rw [min_eq_right hle, List.drop_eq_nil_of_le (by rw [length_contents]; omega),
        List.drop_eq_nil_of_le (by rw [length_contents])]
  rw [pieceAnswers, pieces, List.map_cons, hcount, hdrop, pieceAnswers]

/-- One of the successive calls, within `INT_MAX`. -/
lemma wp_readChunk {c : UInt32 × ℤ} {chunks : List (UInt32 × ℤ)}
    {Q : List (ℤ × List UInt8) → Io × List UInt32 → Prop} {E : Trap → Io × List UInt32 → Prop}
    (he : s.toc.find? (fun e => e.execname = name) = some e) (hfile : s.HasFile e)
    (hin : 0 ≤ offset ∧ offset ≤ e.execlen) (hc : 0 < c.2)
    (hbuf : s.Receives e c.1 (min c.2 e.execlen).toNat) (hmax : c.2 + offset ≤ intMax)
    (hrest : ∀ s' l', s'.toc = s.toc → s'.HasFile e → e.contents s' = e.contents s →
      (∀ chunks, s.TakesChunks e chunks → s'.TakesChunks e chunks) →
      wp (readChunks name chunks (min (offset + c.2) e.execlen))
        (fun r => Q ((fileAnswer e c.2 offset,
          ((e.contents s).drop offset.toNat).take c.2.toNat) :: r)) E (s', l')) :
    wp (readChunks name (c :: chunks) offset) Q E (s, l) := by
  have hsmall := hfile.small
  have hans : (fileAnswer e c.2 offset).toNat = min c.2.toNat (e.execlen.toNat - offset.toNat) := by
    unfold fileAnswer
    omega
  have hnext : offset + fileAnswer e c.2 offset = min (offset + c.2) e.execlen := by
    unfold fileAnswer
    omega
  have hsize : (fileAnswer e c.2 offset).toNat ≤ 2 ^ 32 := by
    simp only [intMax] at hsmall
    omega
  have hbuf' : s.Receives e c.1 (fileAnswer e c.2 offset).toNat := hbuf.mono (by omega)
  rw [readChunks, wp_bind]
  refine wp_mono (getbytes_copies he hfile hc.le hin.1 hin.2 hmax hbuf') ?_ fun _ _ h => h.elim
  rintro _ _ ⟨rfl, rfl⟩
  rw [wp_bind, wp_read, map_span_filled hsize hans, wp_bind, hnext]
  refine hrest _ _ rfl ⟨hfile.nonneg, hfile.small, hfile.readable⟩
    (contents_filled hsize hbuf') fun chunks hch x hx => ?_
  obtain ⟨h₁, h₂, h₃⟩ := hch x hx
  exact ⟨h₁, h₂, h₃.writable, h₃.apart⟩

/-- **Successive calls within `INT_MAX`.** -/
lemma readChunks_fit {chunks : List (UInt32 × ℤ)}
    (he : s.toc.find? (fun e => e.execname = name) = some e) (hfile : s.HasFile e)
    (hin : 0 ≤ offset ∧ offset ≤ e.execlen) (hch : s.TakesChunks e chunks)
    (hfit : ChunksFit e (chunks.map Prod.snd) offset) :
    wp (readChunks name chunks offset)
      (fun r _ => r = pieceAnswers ((e.contents s).drop offset.toNat) (chunks.map Prod.snd))
      (fun _ _ => False) (s, l) := by
  induction chunks generalizing s l offset with
  | nil => rfl
  | cons c chunks ih =>
      obtain ⟨hc, -, hbuf⟩ := hch c (List.mem_cons_self ..)
      obtain ⟨hmax, hfit'⟩ := hfit
      refine wp_readChunk he hfile hin hc hbuf hmax fun s' l' htoc hfile' hcont htakes => ?_
      refine wp_imp (ih (htoc ▸ he) hfile' ⟨by omega, min_le_right _ _⟩
        (htakes _ fun x hx => hch x (List.mem_cons_of_mem _ hx)) hfit') ?_
      rintro r _ rfl
      rw [List.map_cons, pieceAnswers_cons hin hc.le, hcont]

/-- **Successive calls beyond `INT_MAX`.** -/
lemma readChunks_overflow {chunks : List (UInt32 × ℤ)}
    (he : s.toc.find? (fun e => e.execname = name) = some e) (hfile : s.HasFile e)
    (hin : 0 ≤ offset ∧ offset ≤ e.execlen) (hch : s.TakesChunks e chunks)
    (hfit : ¬ ChunksFit e (chunks.map Prod.snd) offset) :
    wlp (readChunks name chunks offset)
      (fun r _ => r ≠ pieceAnswers ((e.contents s).drop offset.toNat) (chunks.map Prod.snd))
      (s, l) := by
  induction chunks generalizing s l offset with
  | nil => exact absurd trivial hfit
  | cons c chunks ih =>
      obtain ⟨hc, hc', hbuf⟩ := hch c (List.mem_cons_self ..)
      rw [List.map_cons, pieceAnswers_cons hin hc.le]
      by_cases hmax : c.2 + offset ≤ intMax
      · refine wp_readChunk he hfile hin hc hbuf hmax fun s' l' htoc hfile' hcont htakes => ?_
        refine wp_imp (ih (htoc ▸ he) hfile' ⟨by omega, min_le_right _ _⟩
          (htakes _ fun x hx => hch x (List.mem_cons_of_mem _ hx)) fun h => hfit ⟨hmax, h⟩) ?_
        intro r _ hr heq
        rw [hcont] at hr
        exact hr (List.cons.inj heq).2
      · -- this call returns another number than there are bytes
        have hsmall := hfile.small
        rw [wlp, readChunks, wp_bind]
        refine wp_imp (getbytes_elsewhere he hfile hc.le hc' hin.1 (hin.2.trans hsmall)
          fun h => hmax h.2) fun r t hr => ?_
        obtain ⟨s', l'⟩ := t
        rw [wp_bind, wp_read, wp_bind]
        refine wp_any _ (fun rest _ heq => ?_) fun _ _ => trivial
        exact hr (congrArg Prod.fst (List.cons.inj heq).1)

/-- When successive calls read a file. -/
lemma readsInChunks_iff {chunks : List (UInt32 × ℤ)}
    (he : s.toc.find? (fun e => e.execname = name) = some e) (hfile : s.HasFile e)
    (hch : s.TakesChunks e chunks) :
    ReadsInChunks s name e chunks ↔ ChunksFit e (chunks.map Prod.snd) 0 := by
  constructor
  · intro hwp
    by_contra hfit
    obtain ⟨r, t, hrun, hr, -⟩ := wp_returns hwp
    exact wp_ok (readChunks_overflow he hfile ⟨le_rfl, hfile.nonneg⟩ hch hfit) hrun hr
  · intro hfit
    refine wp_imp (readChunks_fit he hfile ⟨le_rfl, hfile.nonneg⟩ hch hfit) ?_
    rintro r _ rfl
    refine ⟨rfl, ?_⟩
    rw [pieceAnswers, List.map_map]
    change (List.map id _).flatten = _
    rw [List.map_id, flatten_pieces, Int.toNat_zero, List.drop_zero]
    rintro c hc
    obtain ⟨x, hx, rfl⟩ := List.mem_map.mp hc
    exact (hch x hx).1.le

/-- **When `readfile` reads exactly the bytes of a file**: a single call does from an offset
within the file as long as the offset and the count add up to no more than `INT_MAX`, and
successive calls do under the same condition on each. -/
theorem readfile_iff (he : s.toc.find? (fun e => e.execname = name) = some e)
    (hfile : s.HasFile e) :
    (∀ buf count offset, 0 ≤ count → count ≤ intMax → 0 ≤ offset → offset ≤ intMax →
      s.Receives e buf (fileAnswer e count offset).toNat →
      (ReadsExactly s name e buf count offset ↔
        offset ≤ e.execlen ∧ count + offset ≤ intMax)) ∧
    ∀ chunks, s.TakesChunks e chunks →
      (ReadsInChunks s name e chunks ↔ ChunksFit e (chunks.map Prod.snd) 0) :=
  ⟨fun _ _ _ hc hc' ho ho' hbuf => readsExactly_iff he hfile hc hc' ho ho' hbuf,
    fun _ hch => readsInChunks_iff he hfile hch⟩

/-- A file of three bytes, and a page of a program. -/
def threeBytes : TocEntry := ⟨"abc", 0x100000, 3⟩

/-- After boot, with the file and a mapped page at the start of the user's memory. -/
def readingState : Io where
  vm := { bootVm 3 8 with
    pds := fun _ =>
      ⟨fun i => if i = 4 then 0x104007 else bootDirectory i, 0, [], [], false, idle_nil⟩
    pt := fun t i => if t = 0x104000 ∧ i = 0 then 0x1000007 else bootTable t i }
  cur := 0
  keyboard := []
  keyboardSize := 1024
  toc := [threeBytes]
  hardwareCursor := 0
  numChildProc := 0
  statusQueue := []
  mem := fun a => if a = 0x100000 then 97 else if a = 0x100001 then 98 else 99

lemma hasFile_reading : readingState.HasFile threeBytes where
  nonneg := by decide
  small := by decide
  readable := by decide +kernel

lemma receives_reading : readingState.Receives threeBytes 0x1000000 3 where
  writable := by decide +kernel
  apart := by decide

/-- Two bytes from offset 1 on, and the file in chunks of 2 bytes. -/
theorem readfile_three :
    ReadsExactly readingState "abc" threeBytes 0x1000000 5 1 ∧
      ReadsInChunks readingState "abc" threeBytes
        [(0x1000000, 2), (0x1000000, 2), (0x1000000, 2)] := by
  have hfind : readingState.toc.find? (fun e => e.execname = "abc") = some threeBytes := rfl
  have hread := readfile_iff hfind hasFile_reading
  refine ⟨(hread.1 _ _ _ (by decide) (by decide) (by decide) (by decide)
    (receives_reading.mono (by decide))).mpr (by decide), (hread.2 _ ?_).mpr (by decide)⟩
  intro c hc
  have hsize : c = (0x1000000, 2) := by simpa using hc
  subst hsize
  exact ⟨by decide, by decide, receives_reading.mono (by decide)⟩

/-- **A read past the end of the file** returns a negative number. -/
theorem readfile_past_end : ¬ ReadsExactly readingState "abc" threeBytes 0x1000000 1 5 := by
  intro h
  have hin := (readsExactly_iff rfl hasFile_reading (by decide) (by decide) (by decide)
    (by decide) (receives_reading.mono (by decide))).mp h
  exact absurd hin.1 (by decide)

end ShrekOS
