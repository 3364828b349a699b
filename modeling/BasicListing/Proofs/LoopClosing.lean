/-
  Which loops a `NEXT` closes.

  * `nameKey`: the first two bytes of a name.  They are all that tells the
    names of two variables apart (`sameName_iff`).
  * `OpenLoops.closeVariable_cases`: a variable closes the loops up to the
    innermost one of its name, or all loops.
  * `closeBy`: closing loops whose names need not be texts.  It does not see
    a change of names that tells the same names apart (`closeBy_map`), and so
    not whether names are cut behind their second byte.
  * `OpenLoops.close_exact`: all that a `NEXT` does to the open loops.
-/
import BasicListing.Loop
import BasicListing.Proofs.LossyText

namespace BasicListing

/-! ## Names -/

theorem Text.length_bytes (t : Text) : t.bytes.length = t.width := by
  induction t with
  | nil => rfl
  | cons c t ih =>
    rw [bytes, List.flatMap_cons, List.length_append, String.length_utf8EncodeChar, ← bytes, ih,
      width_cons]

theorem Text.bytes_injective : Function.Injective Text.bytes :=
  Function.LeftInverse.injective lossyText_bytes

/-- The first two bytes of a name, or all of a shorter one. -/
def nameKey (v : Text) : List UInt8 := v.bytes.take 2

/-- Two names of one variable, given by their bytes. -/
def sameBytes (x y : List UInt8) : Bool :=
  x == y || (2 ≤ x.length && 2 ≤ y.length && x.take 2 == y.take 2)

theorem sameBytes_bytes (v w : Text) : sameBytes v.bytes w.bytes = sameName v w := by
  have heq : (v.bytes == w.bytes) = (v == w) := by
    rw [Bool.eq_iff_iff, beq_iff_eq, beq_iff_eq]
    exact Text.bytes_injective.eq_iff
  rw [sameBytes, sameName, heq, Text.length_bytes, Text.length_bytes]

theorem sameBytes_iff (x y : List UInt8) : sameBytes x y = true ↔ x.take 2 = y.take 2 := by
  simp only [sameBytes, Bool.or_eq_true, Bool.and_eq_true, beq_iff_eq, decide_eq_true_eq]
  constructor
  · rintro (rfl | ⟨-, hkeys⟩)
    · rfl
    · exact hkeys
  · intro hkeys
    have hlength := congrArg List.length hkeys
    rw [List.length_take, List.length_take] at hlength
    by_cases hlong : 2 ≤ x.length
    · exact Or.inr ⟨⟨hlong, by omega⟩, hkeys⟩
    · -- Two short names are their own first two bytes.
      rw [List.take_of_length_le (by omega), List.take_of_length_le (by omega)] at hkeys
      exact Or.inl hkeys

/-- **Names are those of one variable if their first two bytes are equal.** -/
theorem sameName_iff (v w : Text) : sameName v w = true ↔ nameKey v = nameKey w := by
  rw [← sameBytes_bytes, sameBytes_iff]
  rfl

theorem sameName_eq_false_iff {v w : Text} : sameName v w = false ↔ nameKey v ≠ nameKey w := by
  rw [← Bool.not_eq_true, sameName_iff]

theorem sameName_equivalence : Equivalence fun v w => sameName v w = true where
  refl v := (sameName_iff v v).2 rfl
  symm h := (sameName_iff _ _).2 ((sameName_iff _ _).1 h).symm
  trans h h' := (sameName_iff _ _).2 (((sameName_iff _ _).1 h).trans ((sameName_iff _ _).1 h'))

/-- A name of less than two bytes is the only one of its variable. -/
theorem sameName_iff_eq {v w : Text} (hv : v.bytes.length < 2) :
    sameName v w = true ↔ v = w := by
  constructor
  · intro h
    rw [← sameBytes_bytes] at h
    simp only [sameBytes, Bool.or_eq_true, Bool.and_eq_true, beq_iff_eq, decide_eq_true_eq] at h
    rcases h with h | ⟨⟨hlong, -⟩, -⟩
    · exact Text.bytes_injective h
    · omega
  · rintro rfl
    exact sameName_equivalence.refl v

/-! ## Closing loops -/

namespace OpenLoops

/-- A variable closes its innermost loop and the loops inside it, or all loops if none is its
    own. -/
theorem closeVariable_cases (loops : OpenLoops) (v : Text) :
    (∃ inner w, loops = inner ++ w :: loops.closeVariable v ∧ sameName v w = true ∧
      ∀ u ∈ inner, sameName v u = false) ∨
    (∀ u ∈ loops, sameName v u = false) ∧ loops.closeVariable v = [] := by
  induction loops with
  | nil => exact Or.inr ⟨by simp, rfl⟩
  | cons w loops ih =>
    cases hw : sameName v w with
    | true =>
      have hclose : closeVariable (w :: loops) v = loops := by simp [closeVariable, hw]
      exact Or.inl ⟨[], w, by rw [hclose]; rfl, hw, by simp⟩
    | false =>
      have hclose : closeVariable (w :: loops) v = closeVariable loops v := by
        simp [closeVariable, hw]
      rw [hclose]
      rcases ih with ⟨inner, u, hloops, hu, hinner⟩ | ⟨hnone, hempty⟩
      · refine Or.inl ⟨w :: inner, u, ?_, hu, List.forall_mem_cons.2 ⟨hw, hinner⟩⟩
        rw [List.cons_append, ← hloops]
      · exact Or.inr ⟨List.forall_mem_cons.2 ⟨hw, hnone⟩, hempty⟩

theorem closeVariable_suffix (loops : OpenLoops) (v : Text) : loops.closeVariable v <:+ loops := by
  rcases closeVariable_cases loops v with ⟨inner, w, hloops, -⟩ | ⟨-, hempty⟩
  · exact ⟨inner ++ [w], by rw [List.append_assoc]; exact hloops.symm⟩
  · exact hempty ▸ List.nil_suffix

/-- The loops that a `NEXT` leaves open are the outermost ones. -/
theorem close_suffix (loops : OpenLoops) (vs : List Text) : loops.close vs <:+ loops := by
  have hfold : ∀ loops : OpenLoops, vs.foldl closeVariable loops <:+ loops := by
    induction vs with
    | nil => exact fun _ => List.suffix_rfl
    | cons v vs ih => exact fun loops => (ih _).trans (closeVariable_suffix loops v)
  cases vs with
  | nil => exact List.tail_suffix loops
  | cons v vs => exact hfold loops

end OpenLoops

/-! ## Names that are cut -/

/-- Close loops whose names are compared by `same`. -/
def closeBy {α : Type} (same : α → α → Bool) (loops : List α) : List α → List α
  | [] => loops.tail
  | vs => vs.foldl (fun loops v => (loops.dropWhile fun w => !same v w).tail) loops

theorem closeBy_sameName (loops : OpenLoops) (vs : List Text) :
    closeBy sameName loops vs = loops.close vs := by
  cases vs <;> rfl

section
variable {α β : Type} {same : α → α → Bool} {same' : β → β → Bool} {f : α → β}

theorem dropWhile_map_same {loops : List α} {v : α}
    (h : ∀ w ∈ loops, same' (f v) (f w) = same v w) :
    (loops.map f).dropWhile (fun w => !same' (f v) w) =
      (loops.dropWhile fun w => !same v w).map f := by
  induction loops with
  | nil => rfl
  | cons w loops ih =>
    obtain ⟨hw, hloops⟩ := List.forall_mem_cons.1 h
    rw [List.map_cons, List.dropWhile_cons, List.dropWhile_cons, hw]
    cases same v w with
    | true => rfl
    | false => exact ih hloops

/-- Names can be changed before or after loops are closed, if the changed names are told apart
    like the others. -/
theorem closeBy_map {loops vs : List α}
    (h : ∀ v ∈ vs, ∀ w ∈ loops, same' (f v) (f w) = same v w) :
    closeBy same' (loops.map f) (vs.map f) = (closeBy same loops vs).map f := by
  -- Closing takes no new names into the loops, so the assumption stays.
  have hfold : ∀ loops : List α, (∀ v ∈ vs, ∀ w ∈ loops, same' (f v) (f w) = same v w) →
      (vs.map f).foldl (fun loops v => (loops.dropWhile fun w => !same' v w).tail) (loops.map f) =
        (vs.foldl (fun loops v => (loops.dropWhile fun w => !same v w).tail) loops).map f := by
    clear h
    induction vs with
    | nil => exact fun _ _ => rfl
    | cons v vs ih =>
      intro loops h
      obtain ⟨hv, hvs⟩ := List.forall_mem_cons.1 h
      rw [List.map_cons, List.foldl_cons, List.foldl_cons, dropWhile_map_same hv,
        ← List.map_tail]
      refine ih _ fun u hu w hw => hvs u hu w ?_
      exact (List.dropWhile_suffix _).subset (List.mem_of_mem_tail hw)
  cases vs with
  | nil => exact List.map_tail.symm
  | cons v vs => exact hfold loops h

end

/-! ## The loops of a `NEXT` -/

/-- **What a `NEXT` does to the open loops**, which are given innermost first.

    * It closes inner loops, and leaves the outer ones as they are.
    * Without a variable it closes the innermost loop only.
    * With one variable it closes the innermost loop whose name has the same first two bytes, and
      all loops inside it; all loops are closed if there is no such loop.
    * Several variables close one after the other.
    * Names are told apart by their first two bytes, and short names by all of them.  So it makes no
      difference whether names are cut behind their second byte before or after loops are closed,
      neither for names as bytes nor, where that makes texts of them, for names as texts. -/
theorem OpenLoops.close_exact (loops : OpenLoops) (vs : List Text) :
    loops.close vs <:+ loops ∧
    loops.take 1 ++ loops.close [] = loops ∧
    (∀ v, (∃ inner w, loops = inner ++ w :: loops.close [v] ∧ nameKey v = nameKey w ∧
        ∀ u ∈ inner, nameKey v ≠ nameKey u) ∨
      (∀ u ∈ loops, nameKey v ≠ nameKey u) ∧ loops.close [v] = []) ∧
    (∀ v, loops.close (v :: vs) = (v :: vs).foldl (fun left u => OpenLoops.close left [u]) loops) ∧
    (Equivalence fun v w => sameName v w = true) ∧
    (∀ v w, sameName v w = true ↔ nameKey v = nameKey w) ∧
    (∀ v w : Text, v.bytes.length < 2 → (sameName v w = true ↔ v = w)) ∧
    closeBy sameBytes (loops.map Text.bytes) (vs.map Text.bytes) =
      (loops.close vs).map Text.bytes ∧
    closeBy sameBytes (loops.map nameKey) (vs.map nameKey) = (loops.close vs).map nameKey ∧
    ∀ cut : Text → Text, (∀ v ∈ loops ++ vs, (cut v).bytes = nameKey v) →
      OpenLoops.close (loops.map cut) (vs.map cut) = (loops.close vs).map cut := by
  refine ⟨loops.close_suffix vs, ?_, ?_, fun v => rfl, sameName_equivalence, sameName_iff,
    fun v w => sameName_iff_eq, ?_, ?_, ?_⟩
  · cases loops <;> rfl
  · intro v
    rcases loops.closeVariable_cases v with ⟨inner, w, hloops, hw, hinner⟩ | ⟨hnone, hempty⟩
    · refine Or.inl ⟨inner, w, hloops, (sameName_iff v w).1 hw, fun u hu => ?_⟩
      exact sameName_eq_false_iff.1 (hinner u hu)
    · exact Or.inr ⟨fun u hu => sameName_eq_false_iff.1 (hnone u hu), hempty⟩
  · rw [← closeBy_sameName]
    exact closeBy_map fun v _ w _ => sameBytes_bytes v w
  · rw [← closeBy_sameName]
    refine closeBy_map fun v _ w _ => ?_
    rw [Bool.eq_iff_iff, sameBytes_iff, sameName_iff, nameKey, nameKey, List.take_take,
      List.take_take]
    rfl
  · intro cut hcut
    rw [← closeBy_sameName, ← closeBy_sameName]
    have hkey : ∀ v ∈ loops ++ vs, nameKey (cut v) = nameKey v := by
      intro v hv
      rw [nameKey, hcut v hv, nameKey, List.take_take]
      rfl
    refine closeBy_map fun v hv w hw => ?_
    rw [Bool.eq_iff_iff, sameName_iff, sameName_iff, hkey v (List.mem_append_right _ hv),
      hkey w (List.mem_append_left _ hw)]

/-- Two variables, of which the first names a loop by another name and the second no loop at all. -/
theorem OpenLoops.close_exact_indexAndRow :
    let loops : OpenLoops := ["K".toList, "INX".toList, "J".toList, "INDEX".toList]
    let vs : List Text := ["INT".toList, "ROW".toList]
    (∀ v ∈ loops ++ vs, Text.bytes (v.take 2) = nameKey v) ∧
      loops.close ["INT".toList] = ["J".toList, "INDEX".toList] ∧ loops.close vs = [] ∧
      OpenLoops.close (loops.map (List.take 2)) (vs.map (List.take 2)) =
        (loops.close vs).map (List.take 2) := by
  intro loops vs
  have hcut : ∀ v ∈ loops ++ vs, Text.bytes (v.take 2) = nameKey v := by decide +kernel
  obtain ⟨-, -, -, -, -, -, -, -, -, hcommutes⟩ := close_exact loops vs
  exact ⟨hcut, by decide +kernel, by decide +kernel, hcommutes (List.take 2) hcut⟩

end BasicListing
