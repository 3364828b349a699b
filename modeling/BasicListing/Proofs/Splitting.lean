/-
  What the statements of a line are made of.

  * `Tiles`: pieces that stand one behind the other, without a gap.
  * `Splitter.Reads`: what holds while a body is read.  Each byte keeps it
    (`Splitter.Reads.step`), in whatever context it stands.
  * `splitBody_makeUp`: the statements of a body tile it, hold all of its
    bytes in order, and only the last of them has the ending of the line.
-/
import BasicListing.Line
import Mathlib.Tactic.Common

namespace BasicListing

/-! ## Pieces one behind the other -/

section
variable {α : Type} (offset size : α → Nat)

/-- The pieces stand one behind the other, the first at `start` and the last up to `stop`. -/
def Tiles : Nat → List α → Nat → Prop
  | start, [], stop => start = stop
  | start, x :: xs, stop => offset x = start ∧ Tiles (start + size x) xs stop

variable {offset size}

theorem Tiles.append {start mid stop : Nat} {xs ys : List α} (hx : Tiles offset size start xs mid)
    (hy : Tiles offset size mid ys stop) : Tiles offset size start (xs ++ ys) stop := by
  induction xs generalizing start with
  | nil => obtain rfl : start = mid := hx; exact hy
  | cons x xs ih => exact ⟨hx.1, ih hx.2⟩

theorem Tiles.stop_eq {start stop : Nat} {xs : List α} (h : Tiles offset size start xs stop) :
    stop = start + total (xs.map size) := by
  induction xs generalizing start with
  | nil => obtain rfl : start = stop := h; simp
  | cons x xs ih => rw [ih h.2, List.map_cons, total_cons, Nat.add_assoc]

theorem Tiles.offset_eq {start stop : Nat} {xs : List α} (h : Tiles offset size start xs stop)
    {i : Nat} {x : α} (hi : xs[i]? = some x) :
    offset x = start + total ((xs.take i).map size) := by
  induction xs generalizing start i with
  | nil => simp at hi
  | cons y ys ih =>
    cases i with
    | zero => obtain rfl : y = x := by simpa using hi
              simpa using h.1
    | succ i => simpa [Nat.add_assoc] using ih h.2 (by simpa using hi)

theorem Tiles.bounds {start stop : Nat} {xs : List α} (h : Tiles offset size start xs stop)
    {x : α} (hx : x ∈ xs) : start ≤ offset x ∧ offset x + size x ≤ stop := by
  induction xs generalizing start with
  | nil => simp at hx
  | cons y ys ih =>
    rcases List.mem_cons.1 hx with rfl | hx
    · have := Tiles.stop_eq h.2
      have := h.1
      omega
    · obtain ⟨hstart, hstop⟩ := ih h.2 hx
      exact ⟨Nat.le_trans (Nat.le_add_right _ _) hstart, hstop⟩

/-- There is a piece for each place that the pieces cover. -/
theorem Tiles.exists_mem {start stop : Nat} {xs : List α} (h : Tiles offset size start xs stop)
    {k : Nat} (hstart : start ≤ k) (hstop : k < stop) :
    ∃ x ∈ xs, offset x ≤ k ∧ k < offset x + size x := by
  induction xs generalizing start with
  | nil =>
    obtain rfl : start = stop := h
    omega
  | cons y ys ih =>
    rcases Nat.lt_or_ge k (start + size y) with hk | hk
    · exact ⟨y, by simp, by rw [h.1]; exact ⟨hstart, hk⟩⟩
    · obtain ⟨x, hx, hkx⟩ := ih h.2 hk
      exact ⟨x, by simp [hx], hkx⟩

/-- A piece that holds its own bytes finds them in an image that holds those of all pieces. -/
theorem Tiles.slice_eq {bytes : α → List UInt8} (hsize : ∀ x, (bytes x).length = size x)
    {image : Image} {start stop : Nat} {xs : List α} {rest : List UInt8}
    (h : Tiles offset size start xs stop) (himage : image.drop start = xs.flatMap bytes ++ rest) :
    ∀ x ∈ xs, image.slice (offset x) (size x) = bytes x := by
  induction xs generalizing start with
  | nil => simp
  | cons y ys ih =>
    rw [List.flatMap_cons, List.append_assoc] at himage
    have hrest : image.drop (start + size y) = ys.flatMap bytes ++ rest := by
      rw [← List.drop_drop, himage, ← hsize, List.drop_left]
    rintro x (_ | ⟨_, hx⟩)
    · rw [Image.slice, h.1, himage, ← hsize, List.take_left]
    · exact ih h.2 hrest x hx

end

/-! ## Reading a body -/

/-- The first statement opens its line, and no other does. -/
def OpensFirst : List Statement → Prop
  | [] => True
  | first :: rest => first.opensLine = true ∧ ∀ s ∈ rest, s.opensLine = false

theorem OpensFirst.concat {ss : List Statement} (h : OpensFirst ss) {s : Statement}
    (hs : s.opensLine = ss.isEmpty) : OpensFirst (ss ++ [s]) := by
  cases ss with
  | nil => exact ⟨hs, by simp⟩
  | cons first rest =>
    refine ⟨h.1, fun t ht => ?_⟩
    rcases List.mem_append.1 ht with ht | ht
    · exact h.2 t ht
    · rw [List.mem_singleton.1 ht, hs]; rfl

namespace Splitter

/-- What holds of the reader of a body at `offset` when it has read the bytes `read`: they are
    those of the statements it has ended, which stand one behind the other, and of the one it is
    in. -/
structure Reads (offset : Nat) (read : List UInt8) (s : Splitter) : Prop where
  bytes : s.done.reverse.flatMap Statement.bytes ++ s.current.reverse = read
  tiles : Tiles Statement.offset Statement.size offset s.done.reverse s.start
  opens : OpensFirst s.done.reverse
  unended : ∀ t ∈ s.done, t.ending ≠ .zero

variable {offset : Nat} {read : List UInt8} {s : Splitter}

theorem Reads.start (offset : Nat) : Reads offset [] { start := offset } :=
  ⟨rfl, rfl, trivial, by simp⟩

theorem Reads.take (h : Reads offset read s) (b : UInt8) (context : Context) :
    Reads offset (read ++ [b]) (s.take b context) where
  bytes := by
    simp only [Splitter.take, List.reverse_cons, ← List.append_assoc, h.bytes]
  tiles := h.tiles
  opens := h.opens
  unended := h.unended

theorem done_close (s : Splitter) (ending : Ending) :
    (s.close ending).done.reverse =
      s.done.reverse ++ [⟨s.start, s.current.reverse, ending, s.done.isEmpty⟩] := by
  simp [close]

theorem Reads.bytes_close (h : Reads offset read s) (ending : Ending) :
    (s.close ending).done.reverse.flatMap Statement.bytes = read ++ ending.bytes := by
  rw [done_close, List.flatMap_append, ← h.bytes]
  simp [Statement.bytes]

theorem Reads.tiles_close (h : Reads offset read s) (ending : Ending) :
    Tiles Statement.offset Statement.size offset (s.close ending).done.reverse
      (s.close ending).start := by
  rw [done_close]
  refine h.tiles.append ⟨rfl, ?_⟩
  simp only [Tiles, Statement.size, close, List.length_reverse, Nat.add_assoc]

theorem Reads.opens_close (h : Reads offset read s) (ending : Ending) :
    OpensFirst (s.close ending).done.reverse := by
  rw [done_close]
  refine h.opens.concat ?_
  simp

theorem Reads.close (h : Reads offset read s) (ending : Ending) (hz : ending ≠ .zero) :
    Reads offset (read ++ ending.bytes) (s.close ending) where
  bytes := by
    rw [h.bytes_close]
    simp [Splitter.close]
  tiles := h.tiles_close ending
  opens := h.opens_close ending
  unended := by
    rintro t (_ | ⟨_, ht⟩)
    · exact hz
    · exact h.unended t ht

/-- **Each byte is kept**, whatever it means where it stands. -/
theorem Reads.step (h : Reads offset read s) (b : UInt8) :
    Reads offset (read ++ [b]) (s.step b) := by
  unfold Splitter.step
  cases s.context with
  | plain =>
    simp only
    split_ifs with hcolon
    · rw [hcolon]; exact h.close .colon (by decide)
    all_goals exact h.take b _
  | string => exact h.take b _
  | remark => exact h.take b _
  | condition =>
    -- `THEN` belongs to the condition that it ends, and `GOTO` to the clause behind it.
    simp only
    split_ifs
    · simpa [Ending.bytes] using (h.take b .plain).close .absent (by decide)
    · simpa [Ending.bytes] using (h.close .absent (by decide)).take b .plain
    · exact h.take b _

theorem Reads.foldl (h : Reads offset read s) (bytes : List UInt8) :
    Reads offset (read ++ bytes) (bytes.foldl Splitter.step s) := by
  induction bytes generalizing read s with
  | nil => simpa using h
  | cons b bytes ih => simpa using ih (h.step b)

theorem Reads.beforeLast (h : Reads offset read s) :
    Reads offset read (if s.context = .condition then s.close .absent else s) := by
  split_ifs
  · simpa [Ending.bytes] using h.close .absent (by decide)
  · exact h

end Splitter

/-! ## Statements of a body -/

/-- How statements make up a body that stands at `offset` and ends in `ending`. -/
structure MakeUp (offset : Nat) (body : List UInt8) (ending : Ending) (ss : List Statement) :
    Prop where
  bytes : ss.flatMap Statement.bytes = body ++ ending.bytes
  tiles : Tiles Statement.offset Statement.size offset ss (offset + body.length + ending.size)
  opens : OpensFirst ss
  ends : ∃ init last, ss = init ++ [last] ∧ last.ending = ending ∧ ∀ s ∈ init, s.ending ≠ .zero

theorem length_flatMap_bytes (ss : List Statement) :
    (ss.flatMap Statement.bytes).length = total (ss.map Statement.size) := by
  induction ss with
  | nil => rfl
  | cons s ss ih =>
    rw [List.flatMap_cons, List.length_append, ih, s.length_bytes, List.map_cons, total_cons]

/-- **The statements of a body make it up**: none of its bytes is lost, and none is taken twice. -/
theorem splitBody_makeUp (offset : Nat) (body : List UInt8) (ending : Ending) :
    MakeUp offset body ending (splitBody offset body ending) := by
  have h := ((Splitter.Reads.start offset).foldl body).beforeLast
  rw [List.nil_append] at h
  rw [splitBody, Splitter.finish]
  set last := if (body.foldl Splitter.step { start := offset }).context = .condition then
    (body.foldl Splitter.step { start := offset }).close .absent
    else body.foldl Splitter.step { start := offset }
  have hbytes := h.bytes_close ending
  have htiles := h.tiles_close ending
  refine ⟨hbytes, ?_, h.opens_close ending, _, _, last.done_close ending, rfl, ?_⟩
  · have hsize : total ((last.close ending).done.reverse.map Statement.size) =
        body.length + ending.size := by
      rw [← length_flatMap_bytes, hbytes, List.length_append]
      rfl
    have hstop := htiles.stop_eq
    rw [hsize, ← Nat.add_assoc] at hstop
    rwa [← hstop]
  · intro s hs
    exact h.unended s (List.mem_reverse.1 hs)

theorem MakeUp.body_subset {offset : Nat} {body : List UInt8} {ending : Ending}
    {ss : List Statement} (h : MakeUp offset body ending ss) {s : Statement} (hs : s ∈ ss) :
    s.body ⊆ body := by
  obtain ⟨init, last, rfl, hending, -⟩ := h.ends
  have hbytes := h.bytes
  rw [List.flatMap_append, List.flatMap_singleton, Statement.bytes, hending,
    ← List.append_assoc] at hbytes
  rw [← List.append_cancel_right hbytes]
  rcases List.mem_append.1 hs with hs | hs
  · exact fun b hb => List.mem_append_left _
      (List.mem_flatMap.2 ⟨s, hs, List.mem_append_left _ hb⟩)
  · rw [List.mem_singleton.1 hs]; exact List.subset_append_right _ _

end BasicListing
