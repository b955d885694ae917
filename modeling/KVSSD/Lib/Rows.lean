import Mathlib.Data.List.Basic
import Mathlib.Tactic.Ring

/-!
# Row-major rows of a flat list

A tensor whose last dimension has a given width is a flat list cut into rows
of that width.  `rows count width` performs the cut; the lemmas describe how
cutting commutes with appending, taking and dropping whole rows, and with maps
that rewrite every row independently of the others.
-/

namespace KVSSD

variable {α β : Type}

/-- The first `count` consecutive rows of `width` items. -/
def rows : Nat → Nat → List α → List (List α)
  | 0, _, _ => []
  | count + 1, width, items =>
      items.take width :: rows count width (items.drop width)

@[simp] theorem rows_length (count width : Nat) (items : List α) :
    (rows count width items).length = count := by
  induction count generalizing items with
  | zero => rfl
  | succ count induction => simp [rows, induction]

theorem rows_flatten {count width : Nat} {items : List α}
    (exact : items.length = count * width) :
    (rows count width items).flatten = items := by
  induction count generalizing items with
  | zero =>
      have empty : items = [] := by simpa using exact
      simp [rows, empty]
  | succ count induction =>
      have remaining : (items.drop width).length = count * width := by
        rw [List.length_drop, exact, Nat.succ_mul]
        omega
      simp [rows, induction remaining]

/-- Every row of an exact cut is full. -/
theorem length_of_mem_rows {count width : Nat} {items row : List α}
    (enough : count * width ≤ items.length)
    (member : row ∈ rows count width items) : row.length = width := by
  induction count generalizing items with
  | zero => simp [rows] at member
  | succ count induction =>
      rw [Nat.succ_mul] at enough
      rcases List.mem_cons.mp member with head | tail
      · subst head
        rw [List.length_take]
        omega
      · refine induction ?_ tail
        rw [List.length_drop]
        omega

theorem rows_append {count more width : Nat} {front back : List α}
    (exact : front.length = count * width) :
    rows (count + more) width (front ++ back) =
      rows count width front ++ rows more width back := by
  induction count generalizing front with
  | zero =>
      have empty : front = [] := by simpa using exact
      simp [rows, empty]
  | succ count induction =>
      rw [Nat.succ_mul] at exact
      have remaining : (front.drop width).length = count * width := by
        rw [List.length_drop]
        omega
      have inside : width ≤ front.length := by omega
      rw [show count + 1 + more = (count + more) + 1 by omega]
      simp only [rows, List.take_append_of_le_length inside,
        List.drop_append_of_le_length inside, induction remaining,
        List.cons_append]

theorem rows_take {count taken width : Nat} {items : List α}
    (inside : taken ≤ count) :
    (rows count width items).take taken = rows taken width items := by
  induction taken generalizing count items with
  | zero => rfl
  | succ taken induction =>
      cases count with
      | zero => omega
      | succ count =>
          simp only [rows, List.take_succ_cons]
          rw [induction (by omega)]

theorem rows_of_take {count width : Nat} {items : List α} :
    rows count width (items.take (count * width)) = rows count width items := by
  induction count generalizing items with
  | zero => rfl
  | succ count induction =>
      simp only [rows]
      congr 1
      · rw [List.take_take]
        congr 1
        rw [Nat.succ_mul]
        omega
      · rw [List.drop_take, Nat.succ_mul, Nat.add_sub_cancel]
        exact induction

/-- The `index`-th row starts at `index * width`. -/
theorem rows_getElem? {count width index : Nat} {items : List α}
    (inside : index < count) :
    (rows count width items)[index]? =
      some ((items.drop (index * width)).take width) := by
  induction index generalizing count items with
  | zero =>
      cases count with
      | zero => omega
      | succ count => simp [rows]
  | succ index induction =>
      cases count with
      | zero => omega
      | succ count =>
          simp only [rows, List.getElem?_cons_succ]
          rw [induction (by omega), List.drop_drop]
          congr 3
          ring

/-- The images of some items, each of `width'` items, are the rows of their
concatenation. -/
theorem rows_flatMap {width' : Nat} {items : List α} {image : α → List β}
    (wide : ∀ item ∈ items, (image item).length = width') :
    rows items.length width' (items.flatMap image) = items.map image := by
  induction items with
  | nil => rfl
  | cons item items induction =>
      have headWide : (image item).length = width' := wide item (by simp)
      have tailWide : ∀ other ∈ items, (image other).length = width' := by
        intro other member
        exact wide other (by simp [member])
      simp only [List.length_cons, rows, List.flatMap_cons, List.map_cons]
      rw [List.take_append_of_le_length (by omega),
        List.drop_append_of_le_length (by omega),
        List.take_of_length_le (by omega),
        List.drop_eq_nil_of_le (by omega), List.nil_append,
        induction tailWide]

theorem length_flatMap_of_wide {width' : Nat} {items : List α} {image : α → List β}
    (wide : ∀ item ∈ items, (image item).length = width') :
    (items.flatMap image).length = items.length * width' := by
  induction items with
  | nil => simp
  | cons item items induction =>
      have headWide : (image item).length = width' := wide item (by simp)
      have tailWide : ∀ other ∈ items, (image other).length = width' := by
        intro other member
        exact wide other (by simp [member])
      rw [List.flatMap_cons, List.length_append, headWide, induction tailWide,
        List.length_cons, Nat.succ_mul, Nat.add_comm]

theorem flatMap_eq_map_range {width' : Nat} {image : α → List β} (entry : α → Nat → β)
    (images : ∀ item, image item = (List.range width').map (entry item)) (missing : α)
    (items : List α) :
    items.flatMap image = (List.range (items.length * width')).map fun index =>
      entry (items.getD (index / width') missing) (index % width') := by
  induction items with
  | nil => simp
  | cons item items induction =>
      rw [List.flatMap_cons, induction, List.length_cons, Nat.succ_mul, Nat.add_comm,
        List.range_add, List.map_append, images, List.map_map]
      congr 1
      · apply List.map_congr_left
        intro index member
        have below := List.mem_range.mp member
        rw [Nat.div_eq_of_lt below, Nat.mod_eq_of_lt below]
        rfl
      · apply List.map_congr_left
        intro index member
        have positive : 0 < width' := by
          apply Nat.pos_of_ne_zero
          rintro rfl
          simp at member
        simp only [Function.comp_apply]
        rw [Nat.add_div_left _ positive, Nat.add_mod_left]
        rfl

theorem map_range_mul (count width' : Nat) (item : Nat → α) :
    (List.range (count * width')).map item = (List.range count).flatMap fun row =>
      (List.range width').map fun place => item (row * width' + place) := by
  induction count with
  | zero => simp
  | succ count induction =>
      rw [Nat.succ_mul, List.range_add, List.map_append, induction, List.range_succ,
        List.flatMap_append, List.map_map]
      simp [Function.comp_def]

theorem rows_map_range {count taken width' : Nat} (inside : taken ≤ count)
    (item : Nat → α) :
    rows taken width' ((List.range (count * width')).map item) =
      (List.range taken).map fun row =>
        (List.range width').map fun place => item (row * width' + place) := by
  have cut := @rows_flatMap _ _ width' (List.range count)
    (fun row => (List.range width').map fun place => item (row * width' + place))
    (fun _ _ => by simp)
  rw [List.length_range] at cut
  rw [← rows_take inside, map_range_mul, cut, ← List.map_take, List.take_range,
    Nat.min_eq_left inside]

theorem rows_split {count width parts narrow : Nat} {items : List α}
    (wide : width = parts * narrow)
    (exact : items.length = count * width) :
    rows (count * parts) narrow items =
      (rows count width items).flatMap (rows parts narrow) := by
  induction count generalizing items with
  | zero => simp [rows]
  | succ count induction =>
      rw [Nat.succ_mul] at exact
      have frontLength : (items.take width).length = parts * narrow := by
        rw [List.length_take]
        omega
      have backLength : (items.drop width).length = count * width := by
        rw [List.length_drop]
        omega
      have regroup : (count + 1) * parts = parts + count * parts := by ring
      calc
        rows ((count + 1) * parts) narrow items
            = rows (parts + count * parts) narrow
                (items.take width ++ items.drop width) := by
              rw [regroup, List.take_append_drop]
        _ = rows parts narrow (items.take width) ++
              rows (count * parts) narrow (items.drop width) :=
            rows_append frontLength
        _ = (rows (count + 1) width items).flatMap (rows parts narrow) := by
            rw [induction backLength, rows, List.flatMap_cons]

theorem rows_sum_flatMap {width' : Nat} {items : List α} {count : α → Nat}
    {piece : α → List β}
    (exact : ∀ item ∈ items, (piece item).length = count item * width') :
    rows ((items.map count).sum) width' (items.flatMap piece) =
      items.flatMap fun item => rows (count item) width' (piece item) := by
  induction items with
  | nil => rfl
  | cons item items induction =>
      rw [List.map_cons, List.sum_cons, List.flatMap_cons, List.flatMap_cons,
        rows_append (exact item (by simp)),
        induction fun other member => exact other (by simp [member])]

end KVSSD
