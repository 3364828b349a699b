/-
  Breaking a row keeps its text.

  * `cutPieces?_flatten`: the pieces of a text make up the text.
  * `cutPieces?_widths`: all pieces but the last are as wide as they may be,
    and there is always something left for the last.
  * `exists_cutPieces?`: a text in ASCII can be cut anywhere.
  * `exists_of_wrapRow?`, `exists_wrapRow?`: what this means for the rows that
    a row is broken into.
-/
import BasicListing.Listing.Wrap
import Mathlib.Tactic.Common

namespace BasicListing

namespace Pieces

variable {width : Nat} {p q : Pieces}

theorem flatten_toList (p : Pieces) :
    p.toList.flatten = (p.done.reverse.map List.reverse).flatten ++ p.current.reverse := by
  simp [toList]

theorem flatten_take? {c : Char} (h : p.take? width c = some q) :
    q.toList.flatten = p.toList.flatten ++ [c] := by
  unfold take? at h
  split_ifs at h
  · obtain rfl := Option.some.inj h
    simp [flatten_toList]
  · obtain rfl := Option.some.inj h
    simp [flatten_toList]

theorem flatten_foldlM {t : Text} (h : t.foldlM (take? width) p = some q) :
    q.toList.flatten = p.toList.flatten ++ t := by
  induction t generalizing p with
  | nil =>
    obtain rfl : p = q := by simpa using h
    simp
  | cons c t ih =>
    rw [List.foldlM_cons] at h
    obtain ⟨p', hp', h'⟩ := Option.bind_eq_some_iff.1 h
    rw [ih h', flatten_take? hp', List.append_assoc, List.singleton_append]

/-- The columns of the piece behind those that are done. -/
def capacity (first width : Nat) (done : List Text) : Nat := if done.isEmpty then first else width

/-- All pieces, given last first, are as wide as they may be. -/
def Full (first width : Nat) : List Text → Prop
  | [] => True
  | piece :: done => piece.width = capacity first width done ∧ Full first width done

/-- The pieces that are done are full, and the current one has room for what it may still take. -/
structure Fills (first width : Nat) (p : Pieces) : Prop where
  full : Full first width p.done
  room : p.current.width + p.room = capacity first width p.done
  taken : p.done ≠ [] → p.current ≠ []

variable {first : Nat}

theorem Fills.take? (hp : p.Fills first width) {c : Char} (h : p.take? width c = some q) :
    q.Fills first width := by
  have hroom := hp.room
  unfold Pieces.take? at h
  split_ifs at h with hfits hnext
  · obtain rfl := Option.some.inj h
    refine ⟨hp.full, ?_, by simp⟩
    change Text.width (c :: p.current) + (p.room - c.utf8Size) = capacity first width p.done
    rw [Text.width_cons]
    omega
  · obtain rfl := Option.some.inj h
    refine ⟨⟨by omega, hp.full⟩, ?_, by simp⟩
    simp only [Text.width_cons, Text.width_nil, capacity, List.isEmpty_cons, Bool.false_eq_true,
      if_false]
    omega

theorem Fills.foldlM (hp : p.Fills first width) {t : Text}
    (h : t.foldlM (Pieces.take? width) p = some q) : q.Fills first width := by
  induction t generalizing p with
  | nil =>
    obtain rfl : p = q := by simpa using h
    exact hp
  | cons c t ih =>
    rw [List.foldlM_cons] at h
    obtain ⟨p', hp', h'⟩ := Option.bind_eq_some_iff.1 h
    exact ih (hp.take? hp') h'

theorem width_reverse (t : Text) : Text.width t.reverse = t.width := by
  induction t with
  | nil => rfl
  | cons c t ih =>
    rw [List.reverse_cons, Text.width_append, ih, Text.width_cons, Text.width_cons, Text.width_nil]
    omega

theorem Full.width_eq {done : List Text} (h : Full first width done) {i : Nat} {piece : Text}
    (hpiece : (done.reverse.map List.reverse)[i]? = some piece) :
    piece.width = if i = 0 then first else width := by
  induction done with
  | nil => simp at hpiece
  | cons d done ih =>
    rw [List.reverse_cons, List.map_append] at hpiece
    rcases Nat.lt_or_ge i done.length with hi | hi
    · rw [List.getElem?_append_left (by simpa using hi)] at hpiece
      exact ih h.2 hpiece
    · -- The last of them stands behind all others.
      obtain ⟨rfl, rfl⟩ : i = done.length ∧ d.reverse = piece := by
        rw [List.getElem?_append_right (by simpa using hi)] at hpiece
        simp only [List.length_map, List.length_reverse, List.map_cons, List.map_nil,
          List.getElem?_singleton] at hpiece
        split_ifs at hpiece with hzero
        exact ⟨by omega, Option.some.inj hpiece⟩
      rw [width_reverse, h.1, capacity]
      cases done <;> simp

/-- Characters of one column can be taken without end. -/
theorem exists_foldlM (hwidth : width ≠ 0) {t : Text} (ht : ∀ c ∈ t, c.utf8Size = 1)
    (p : Pieces) : ∃ q, t.foldlM (take? width) p = some q := by
  induction t generalizing p with
  | nil => exact ⟨p, rfl⟩
  | cons c t ih =>
    have hstep : ∃ p', p.take? width c = some p' := by
      unfold take?
      rw [ht c (by simp)]
      by_cases hroom : 1 ≤ p.room
      · exact ⟨_, if_pos hroom⟩
      · exact ⟨_, by rw [if_neg hroom, if_pos ⟨by omega, by omega⟩]⟩
    obtain ⟨p', hp'⟩ := hstep
    obtain ⟨q, hq⟩ := ih (fun c' hc' => ht c' (by simp [hc'])) p'
    exact ⟨q, by rw [List.foldlM_cons, hp']; exact hq⟩

end Pieces

/-- **The pieces of a text make it up.** -/
theorem cutPieces?_flatten {first width : Nat} {t : Text} {pieces : List Text}
    (h : cutPieces? first width t = some pieces) : pieces.flatten = t := by
  obtain ⟨q, hq, rfl⟩ := Option.map_eq_some_iff.1 h
  rw [Pieces.flatten_foldlM hq]
  simp [Pieces.toList]

/-- **All pieces of a text but the last are as wide as they may be**, and the last is not empty
    if it is not the only one. -/
theorem cutPieces?_widths {first width : Nat} {t : Text} {pieces : List Text}
    (h : cutPieces? first width t = some pieces) :
    ∃ init last, pieces = init ++ [last] ∧
      (∀ i piece, init[i]? = some piece → Text.width piece = if i = 0 then first else width) ∧
      Text.width last ≤ (if init = [] then first else width) ∧ (init ≠ [] → last ≠ []) := by
  obtain ⟨q, hq, rfl⟩ := Option.map_eq_some_iff.1 h
  have hstart : Pieces.Fills first width { room := first } :=
    ⟨trivial, by simp [Pieces.capacity], by simp⟩
  have hfills := hstart.foldlM hq
  have hroom := hfills.room
  refine ⟨q.done.reverse.map List.reverse, q.current.reverse, by simp [Pieces.toList],
    fun i piece => hfills.full.width_eq, ?_, by simpa using hfills.taken⟩
  rw [Pieces.width_reverse]
  cases hdone : q.done <;> simp [Pieces.capacity, hdone] at hroom ⊢ <;> omega

theorem exists_cutPieces? {width : Nat} (hwidth : width ≠ 0) {t : Text}
    (ht : ∀ c ∈ t, c.utf8Size = 1) (first : Nat) :
    ∃ pieces, cutPieces? first width t = some pieces := by
  obtain ⟨q, hq⟩ := Pieces.exists_foldlM hwidth ht { room := first }
  exact ⟨_, by rw [cutPieces?, hq]; rfl⟩

/-- The rows that a row is broken into are pieces of it, with spaces before all but the first. -/
theorem exists_of_wrapRow? {width : Nat} {row : Text} {rows : List Text}
    (h : wrapRow? width row = some rows) :
    ∃ (pieces : List Text) (quote : Nat), pieces.flatten = row ∧
      rows = pieces.take 1 ++ (pieces.drop 1).map (Text.spaces quote ++ ·) := by
  unfold wrapRow? at h
  split_ifs at h
  · obtain ⟨pieces, hpieces, rfl⟩ := Option.map_eq_some_iff.1 h
    exact ⟨pieces, _, cutPieces?_flatten hpieces, rfl⟩
  · obtain rfl := Option.some.inj h
    exact ⟨[row], 0, by simp, rfl⟩

/-- The first of the rows that a row is broken into goes beyond the first quote, if it is not all
    of the row. -/
theorem first_of_wrapRow? {width : Nat} {row : Text} {rows : List Text}
    (h : wrapRow? width row = some rows) :
    ∃ first rest, rows = first :: rest ∧ first <+: row ∧
      (first = row ∨ Text.width (row.takeWhile (· != '"')) ≤ Text.width first) := by
  unfold wrapRow? at h
  split_ifs at h
  · obtain ⟨pieces, hpieces, rfl⟩ := Option.map_eq_some_iff.1 h
    obtain ⟨init, last, rfl, hwidths, -⟩ := cutPieces?_widths hpieces
    have hflatten := cutPieces?_flatten hpieces
    cases init with
    | nil => exact ⟨last, [], rfl, by simp [← hflatten], Or.inl (by simpa using hflatten)⟩
    | cons first init =>
      have hfirst := hwidths 0 first rfl
      rw [if_pos rfl] at hfirst
      exact ⟨first, _, rfl, by simp [← hflatten], Or.inr (by omega)⟩
  · obtain rfl := Option.some.inj h
    exact ⟨row, [], rfl, List.prefix_rfl, Or.inl rfl⟩

/-- A row in ASCII is broken without fail, whatever the width. -/
theorem exists_wrapRow? (width : Nat) {row : Text} (hrow : ∀ c ∈ row, c.utf8Size = 1) :
    ∃ rows, wrapRow? width row = some rows := by
  unfold wrapRow?
  split_ifs with hneeds
  · have hwidth : width ≠ 0 := by
      rintro rfl
      simp [needsWrap] at hneeds
    obtain ⟨pieces, hpieces⟩ := exists_cutPieces? hwidth hrow
      (Text.width (row.takeWhile (· != '"')) + width)
    exact ⟨_, Option.map_eq_some_iff.2 ⟨pieces, hpieces, rfl⟩⟩
  · exact ⟨_, rfl⟩

end BasicListing
