import ClassAccess.Proofs.Bytes.Splice

/-!
# Many changes of a byte string

A byte string may be changed in many places. If the places lie apart, each of them holds its new
bytes in the end, whatever the order of the changes, and all other bytes stay.

## Main definitions

* `Span.Before`, `Span.Apart` — stretches that do not overlap.
* `Ascending` — stretches that follow one another between two bounds.
* `Span.room`, `Span.Precedes` — empty stretches count as one byte.
* `Patch` — new bytes for a place.
* `patched` — a byte string after many patches.

## Main results

* `Ascending.pairwise` — stretches that follow one another lie apart.
* `Ascending.precedes_of_room` — if there is room for one byte in each, their starts ascend, too.
* `getElem?_patched` — a byte outside the patches stays.
* `Patch.of_patched` — a patch is there in the end if the others lie apart from it.
* `patched_patched` — of patches for the same places the later ones count.
-/

set_option autoImplicit false

namespace ClassAccess

/-! ## Stretches that lie apart -/

/-- The one stretch ends before the other one starts. -/
def Span.Before (s t : Span) : Prop := s.start + s.length ≤ t.start

/-- The stretches do not overlap. -/
def Span.Apart (s t : Span) : Prop := s.Before t ∨ t.Before s

/-- The order of the two stretches does not matter. -/
theorem Span.Apart.symm {s t : Span} (h : s.Apart t) : t.Apart s := Or.symm h

/-- Whether a byte belongs to a stretch. -/
def Span.Covers (s : Span) (i : Nat) : Prop := s.start ≤ i ∧ i < s.start + s.length

/-- A byte belongs to one of two stretches that lie apart. -/
theorem Span.Apart.not_covers {s t : Span} {i : Nat} (h : s.Apart t) (hi : t.Covers i) :
    ¬s.Covers i := by
  unfold Span.Apart Span.Before at h
  unfold Span.Covers at *
  omega

/-- Byte strings that agree on a stretch have the same bytes there. -/
theorem Span.of_congr {s : Span} {x y : List UInt8}
    (h : ∀ i, s.Covers i → x[i]? = y[i]?) : s.of x = s.of y := by
  apply List.ext_getElem?
  intro j
  by_cases hj : j < s.length
  · rw [Span.getElem?_of hj, Span.getElem?_of hj]
    exact h _ ⟨by omega, by omega⟩
  · have hout : ∀ z : List UInt8, (s.of z)[j]? = none := by
      intro z
      apply List.getElem?_eq_none
      rw [Span.of, List.length_take]
      omega
    rw [hout, hout]

/-- **Stretches that follow one another** between `lo` and `hi`. -/
inductive Ascending : (lo : Nat) → (spans : List Span) → (hi : Nat) → Prop
  /-- No stretch needs no room. -/
  | nil {lo hi : Nat} (h : lo ≤ hi) : Ascending lo [] hi
  /-- The others start behind the first one. -/
  | cons {lo hi : Nat} {span : Span} {spans : List Span} (head : lo ≤ span.start)
      (tail : Ascending (span.start + span.length) spans hi) : Ascending lo (span :: spans) hi

namespace Ascending

variable {lo mid hi : Nat} {spans spans' : List Span}

/-- The bounds are in order. -/
theorem le (h : Ascending lo spans hi) : lo ≤ hi := by
  induction h with
  | nil h => exact h
  | cons head _ ih => omega

/-- The lower bound may be lower. -/
theorem lower {lo' : Nat} (h : Ascending lo spans hi) (hlo : lo' ≤ lo) :
    Ascending lo' spans hi := by
  cases h with
  | nil h => exact .nil (by omega)
  | cons head tail => exact .cons (by omega) tail

/-- More stretches may follow. -/
theorem append (h : Ascending lo spans mid) (h' : Ascending mid spans' hi) :
    Ascending lo (spans ++ spans') hi := by
  induction h with
  | nil h => exact h'.lower h
  | cons head _ ih => exact .cons head (ih h')

/-- The upper bound may be higher. -/
theorem raise {hi' : Nat} (h : Ascending lo spans hi) (hhi : hi ≤ hi') :
    Ascending lo spans hi' := by
  have := h.append (.nil hhi)
  rwa [List.append_nil] at this

/-- Each stretch lies between the bounds. -/
theorem bounds (h : Ascending lo spans hi) {s : Span} (hs : s ∈ spans) :
    lo ≤ s.start ∧ s.start + s.length ≤ hi := by
  induction h with
  | nil => cases hs
  | cons head tail ih =>
    rcases List.mem_cons.1 hs with rfl | hs
    · exact ⟨head, tail.le⟩
    · have := ih hs
      omega

/-- **Stretches that follow one another lie apart.** -/
theorem pairwise (h : Ascending lo spans hi) : spans.Pairwise Span.Before := by
  induction h with
  | nil => exact .nil
  | cons _ tail ih => exact .cons (fun t ht => (tail.bounds ht).1) ih

end Ascending

/-- The stretch with room for one byte at least. -/
def Span.room (s : Span) : Span := ⟨s.start, max 1 s.length⟩

/-- The one stretch ends before the other one starts, which is further behind even if the first one
is empty. -/
def Span.Precedes (s t : Span) : Prop := s.Before t ∧ s.start < t.start

namespace Ascending

variable {lo hi : Nat} {spans : List Span}

/-- Stretches that have room follow one another as they are. -/
theorem of_room (h : Ascending lo (spans.map Span.room) hi) : Ascending lo spans hi := by
  induction spans generalizing lo with
  | nil =>
    cases h with
    | nil h => exact .nil h
  | cons s spans ih =>
    cases h with
    | cons head tail =>
      have hroom : s.start + s.length ≤ s.room.start + s.room.length := by
        simp only [Span.room]
        omega
      exact .cons head ((ih tail).lower hroom)

/-- **Stretches that have room precede one another.** -/
theorem precedes_of_room (h : Ascending lo (spans.map Span.room) hi) :
    spans.Pairwise Span.Precedes := by
  refine (List.pairwise_map.1 h.pairwise).imp fun {s t} hst => ?_
  simp only [Span.Before, Span.room] at hst
  simp only [Span.Precedes, Span.Before]
  omega

end Ascending

/-! ## Patches -/

/-- New bytes for a place. -/
structure Patch where
  /-- Where the bytes go. -/
  start : Nat
  /-- The bytes. -/
  bytes : List UInt8
deriving DecidableEq, Repr

/-- The stretch that a patch is written over. -/
def Patch.span (p : Patch) : Span := ⟨p.start, p.bytes.length⟩

/-- The byte string after the patches, in order. -/
def patched (bytes : List UInt8) (patches : List Patch) : List UInt8 :=
  patches.foldl (fun out p => overwrite out p.start p.bytes) bytes

/-- Patches keep the length. -/
@[simp]
theorem length_patched (bytes : List UInt8) (patches : List Patch) :
    (patched bytes patches).length = bytes.length := by
  induction patches generalizing bytes with
  | nil => rfl
  | cons p patches ih => exact (ih _).trans (length_overwrite ..)

/-- Two rows of patches, one after the other. -/
theorem patched_append (bytes : List UInt8) (patches patches' : List Patch) :
    patched bytes (patches ++ patches') = patched (patched bytes patches) patches' :=
  List.foldl_append ..

/-- **A byte outside the patches stays.** -/
theorem getElem?_patched {bytes : List UInt8} {patches : List Patch} {i : Nat}
    (h : ∀ p ∈ patches, ¬p.span.Covers i) : (patched bytes patches)[i]? = bytes[i]? := by
  induction patches generalizing bytes with
  | nil => rfl
  | cons p patches ih =>
    obtain ⟨hp, hps⟩ := List.forall_mem_cons.1 h
    refine (ih hps).trans ?_
    by_cases hi : i < bytes.length
    · rw [getElem?_overwrite _ _ _ _ hi]
      exact if_neg hp
    · rw [List.getElem?_eq_none (by simpa using hi), List.getElem?_eq_none (by simpa using hi)]

/-- A stretch apart from the patches stays. -/
theorem Span.of_patched {bytes : List UInt8} {patches : List Patch} {s : Span}
    (h : ∀ p ∈ patches, p.span.Apart s) : s.of (patched bytes patches) = s.of bytes :=
  Span.of_congr fun _ hi => getElem?_patched fun p hp => (h p hp).not_covers hi

/-- A patch that is in bounds is there once it is written. -/
theorem Patch.of_overwrite {bytes : List UInt8} {p : Patch}
    (h : p.start + p.bytes.length ≤ bytes.length) :
    p.span.of (overwrite bytes p.start p.bytes) = p.bytes := by
  have hsplit : bytes = bytes.take p.start ++
      (p.span.of bytes ++ bytes.drop (p.start + p.bytes.length)) := by
    rw [Span.of, Patch.span, ← List.drop_drop, List.take_append_drop, List.take_append_drop]
  have hpre : p.start = (bytes.take p.start).length := by
    rw [List.length_take]
    omega
  have hold : p.bytes.length = (p.span.of bytes).length := by
    simp only [Span.of, Patch.span, List.length_take, List.length_drop]
    omega
  rw [hsplit, overwrite_append _ hpre hold]
  exact Span.of_append _ hpre rfl

/-- **A patch is there in the end** if it is in bounds and lies apart from the others. -/
theorem Patch.of_patched {bytes : List UInt8} {patches : List Patch} {p : Patch}
    (hp : p ∈ patches) (hapart : (patches.map Patch.span).Pairwise Span.Apart)
    (hbound : p.start + p.bytes.length ≤ bytes.length) :
    p.span.of (patched bytes patches) = p.bytes := by
  obtain ⟨before, behind, rfl⟩ := List.append_of_mem hp
  rw [List.map_append, List.map_cons, List.pairwise_append, List.pairwise_cons] at hapart
  obtain ⟨-, ⟨hbehind, -⟩, -⟩ := hapart
  rw [patched_append]
  refine (Span.of_patched fun q hq => (hbehind _ (List.mem_map_of_mem hq)).symm).trans ?_
  exact Patch.of_overwrite (by simpa using hbound)

/-- **Of patches for the same places the later ones count.**

**Proof sketch.** A byte in one of these places is that of the later patch for it, whatever was
written there before; all other bytes stay both times. -/
theorem patched_patched {bytes : List UInt8} {earlier later : List Patch}
    (hsame : (earlier.map Patch.span).Perm (later.map Patch.span))
    (hapart : (later.map Patch.span).Pairwise Span.Apart)
    (hbound : ∀ p ∈ later, p.start + p.bytes.length ≤ bytes.length) :
    patched (patched bytes earlier) later = patched bytes later := by
  apply List.ext_getElem?
  intro i
  by_cases hi : ∃ p ∈ later, p.span.Covers i
  · obtain ⟨p, hp, hlo, hhi⟩ := hi
    have hj : i - p.span.start < p.span.length := by omega
    have hplace : p.span.start + (i - p.span.start) = i := by omega
    have hthere : ∀ x : List UInt8, x.length = bytes.length →
        (patched x later)[i]? = p.bytes[i - p.span.start]? := by
      intro x hx
      have hof : p.span.of (patched x later) = p.bytes :=
        Patch.of_patched hp hapart (hx ▸ hbound p hp)
      rw [← hof, Span.getElem?_of hj, hplace]
    rw [hthere _ (length_patched ..), hthere _ rfl]
  · have hlater : ∀ p ∈ later, ¬p.span.Covers i := fun p hp hcovers => hi ⟨p, hp, hcovers⟩
    have hearlier : ∀ p ∈ earlier, ¬p.span.Covers i := by
      intro p hp hcovers
      obtain ⟨q, hq, hspan⟩ := List.mem_map.1 (hsame.mem_iff.1 (List.mem_map_of_mem hp))
      exact hlater q hq (hspan ▸ hcovers)
    rw [getElem?_patched hlater, getElem?_patched hearlier, getElem?_patched hlater]

end ClassAccess
