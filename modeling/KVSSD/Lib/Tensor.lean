import KVSSD.Lib.Python
import KVSSD.Lib.Rows
import Mathlib.Algebra.BigOperators.Group.List.Basic
import Mathlib.Tactic.Ring

/-!
# Contiguous tensors

A contiguous tensor is a shape together with its items in row-major order.
The structure carries the agreement of the two, so that a tensor whose data
does not fill its shape cannot be built.  The operations follow PyTorch on
contiguous tensors: reshaping keeps the order of the items, and operations on
the last dimension act on consecutive rows.
-/

namespace KVSSD

open KVSSD.Python

structure Tensor (α : Type) where
  shape : List Nat
  data : List α
  size_eq : data.length = shape.prod
  deriving DecidableEq

namespace Tensor

variable {α β γ : Type}

@[ext] theorem ext {left right : Tensor α}
    (shapes : left.shape = right.shape) (items : left.data = right.data) :
    left = right := by
  cases left
  cases right
  simp only at shapes items
  subst shapes
  subst items
  rfl

/-- Size of the last dimension; a tensor of rank zero is one row of one item. -/
def lastDim (shape : List Nat) : Nat := shape.getLastD 1

theorem prod_dropLast_mul_lastDim (shape : List Nat) :
    shape.dropLast.prod * lastDim shape = shape.prod := by
  rcases List.eq_nil_or_concat shape with empty | ⟨front, last, split⟩
  · subst empty
    rfl
  · subst split
    simp [lastDim]

@[simp] theorem lastDim_append_singleton (front : List Nat) (last : Nat) :
    lastDim (front ++ [last]) = last := by
  simp [lastDim]

def map (f : α → β) (tensor : Tensor α) : Tensor β :=
  { shape := tensor.shape
    data := tensor.data.map f
    size_eq := by simp [tensor.size_eq] }

/-- The rows along the last dimension. -/
def lastRows (tensor : Tensor α) : List (List α) :=
  rows tensor.shape.dropLast.prod (lastDim tensor.shape) tensor.data

theorem size_eq_rows (tensor : Tensor α) :
    tensor.data.length =
      tensor.shape.dropLast.prod * lastDim tensor.shape := by
  rw [prod_dropLast_mul_lastDim, tensor.size_eq]

@[simp] theorem lastRows_length (tensor : Tensor α) :
    tensor.lastRows.length = tensor.shape.dropLast.prod := by
  simp [lastRows]

theorem length_of_mem_lastRows {tensor : Tensor α} {row : List α}
    (member : row ∈ tensor.lastRows) : row.length = lastDim tensor.shape :=
  length_of_mem_rows (Nat.le_of_eq tensor.size_eq_rows.symm) member

/-- Reduce the last dimension, one result for each row. -/
def reduceLast (reduce : List α → β) (tensor : Tensor α) : Tensor β :=
  { shape := tensor.shape.dropLast
    data := tensor.lastRows.map reduce
    size_eq := by simp }

/-- Rewrite every row of the last dimension to a row of `width` items. -/
def mapLast (width : Nat) (image : List α → List β) (tensor : Tensor α)
    (wide : ∀ row, row.length = lastDim tensor.shape →
      (image row).length = width) : Tensor β :=
  { shape := tensor.shape.dropLast ++ [width]
    data := tensor.lastRows.flatMap image
    size_eq := by
      rw [@length_flatMap_of_wide _ _ width]
      · simp
      · intro row member
        exact wide row (length_of_mem_lastRows member) }

/-- Expand every item along a new last dimension of size `width`. -/
def expandLast (width : Nat) (image : α → List β) (tensor : Tensor α)
    (wide : ∀ item, (image item).length = width) : Tensor β :=
  { shape := tensor.shape ++ [width]
    data := tensor.data.flatMap image
    size_eq := by
      have counted : ∀ items : List α,
          (items.flatMap image).length = items.length * width := by
        intro items
        induction items with
        | nil => simp
        | cons item items induction =>
            rw [List.flatMap_cons, List.length_append, wide, induction,
              List.length_cons, Nat.succ_mul, Nat.add_comm]
      rw [counted, tensor.size_eq]
      simp }

/-- Combine two tensors of one shape item by item. -/
def zipWith (f : α → β → γ) (left : Tensor α) (right : Tensor β) :
    Except PyError (Tensor γ) :=
  if shapes : left.shape = right.shape then
    .ok
      { shape := left.shape
        data := List.zipWith f left.data right.data
        size_eq := by
          rw [List.length_zipWith, left.size_eq, right.size_eq, shapes,
            Nat.min_self] }
  else .error (.runtimeError "tensor sizes do not match")

/-- The shape that two shapes broadcast to, all with the last dimension first. -/
def broadcastDims : List Nat → List Nat → Option (List Nat)
  | [], right => some right
  | left, [] => some left
  | size :: left, other :: right =>
      if size = other ∨ other = 1 then (broadcastDims left right).map (size :: ·)
      else if size = 1 then (broadcastDims left right).map (other :: ·)
      else none

/-- The item of a tensor that stands at a flat index of the shape it is broadcast to. -/
def broadcastIndex : List Nat → List Nat → Nat → Nat
  | size :: sizes, wide :: wides, index =>
      (if size = 1 then 0 else index % wide) +
        size * broadcastIndex sizes wides (index / wide)
  | _, _, _ => 0

theorem broadcastIndex_self {sizes : List Nat} {index : Nat} (below : index < sizes.prod) :
    broadcastIndex sizes sizes index = index := by
  induction sizes generalizing index with
  | nil =>
      rw [List.prod_nil] at below
      rw [broadcastIndex]
      · omega
      · simp
  | cons size sizes induction =>
      rw [List.prod_cons] at below
      rw [broadcastIndex, induction (Nat.div_lt_of_lt_mul below)]
      split
      · rename_i one
        rw [one, Nat.div_one]
        omega
      · exact Nat.mod_add_div index size

theorem broadcastIndex_cons_lt {size wide index outer total : Nat} {sizes wides : List Nat}
    (below : index < wide * outer) (fits : size = wide ∨ size = 1)
    (inner : broadcastIndex sizes wides (index / wide) < total) :
    broadcastIndex (size :: sizes) (wide :: wides) index < size * total := by
  rw [broadcastIndex]
  have digit : (if size = 1 then 0 else index % wide) < size := by
    split
    · omega
    · rename_i several
      rcases fits with same | one
      · rw [same]
        apply Nat.mod_lt
        apply Nat.pos_of_ne_zero
        rintro rfl
        simp at below
      · exact absurd one several
  calc
    _ < size + size * broadcastIndex sizes wides (index / wide) :=
      Nat.add_lt_add_right digit _
    _ = size * (broadcastIndex sizes wides (index / wide) + 1) := by ring
    _ ≤ size * total := Nat.mul_le_mul_left _ inner

/-- Broadcasting reads inside both tensors. -/
theorem broadcastIndex_lt {left right wides : List Nat} {index : Nat}
    (shape : broadcastDims left right = some wides) (below : index < wides.prod) :
    broadcastIndex left wides index < left.prod ∧
      broadcastIndex right wides index < right.prod := by
  induction left, right using broadcastDims.induct generalizing wides index with
  | case1 right =>
      obtain rfl := Option.some.inj shape
      constructor
      · simp [broadcastIndex]
      · rwa [broadcastIndex_self below]
  | case2 left nonempty =>
      have whole : left = wides := by
        cases left with
        | nil => exact absurd rfl nonempty
        | cons size left => exact Option.some.inj shape
      subst whole
      constructor
      · rwa [broadcastIndex_self below]
      · simp [broadcastIndex]
  | case3 size left other right agree induction =>
      rw [broadcastDims, if_pos agree] at shape
      obtain ⟨inner, innerShape, rfl⟩ := Option.map_eq_some_iff.mp shape
      rw [List.prod_cons] at below
      obtain ⟨leftBelow, rightBelow⟩ := induction innerShape (Nat.div_lt_of_lt_mul below)
      constructor
      · exact broadcastIndex_cons_lt below (Or.inl rfl) leftBelow
      · apply broadcastIndex_cons_lt below _ rightBelow
        rcases agree with same | one
        · exact Or.inl same.symm
        · exact Or.inr one
  | case4 left other right disagree induction =>
      rw [broadcastDims, if_neg disagree, if_pos rfl] at shape
      obtain ⟨inner, innerShape, rfl⟩ := Option.map_eq_some_iff.mp shape
      rw [List.prod_cons] at below
      obtain ⟨leftBelow, rightBelow⟩ := induction innerShape (Nat.div_lt_of_lt_mul below)
      constructor
      · exact broadcastIndex_cons_lt below (Or.inr rfl) leftBelow
      · exact broadcastIndex_cons_lt below (Or.inl rfl) rightBelow
  | case5 size left other right disagree several =>
      rw [broadcastDims, if_neg disagree, if_neg several] at shape
      cases shape

/-- Combine the rows of the last dimension with parameters that have another shape: both
are broadcast, as PyTorch does. -/
def broadcastLast (f : β → α → γ) (parameters : Tensor β) (tensor : Tensor α) :
    Except PyError (Tensor γ) :=
  match shape : broadcastDims parameters.shape.reverse tensor.shape.dropLast.reverse with
  | none => .error (.runtimeError "tensor sizes do not match")
  | some wides =>
      have inside (index : Fin wides.prod) :
          broadcastIndex parameters.shape.reverse wides index < parameters.data.length ∧
            broadcastIndex tensor.shape.dropLast.reverse wides index <
              tensor.lastRows.length := by
        have below := broadcastIndex_lt shape index.isLt
        rw [List.prod_reverse, List.prod_reverse] at below
        rwa [parameters.size_eq, lastRows_length]
      .ok
        { shape := wides.reverse ++ [lastDim tensor.shape]
          data := (List.finRange wides.prod).flatMap fun index =>
            (tensor.lastRows.get ⟨_, (inside index).2⟩).map
              (f (parameters.data.get ⟨_, (inside index).1⟩))
          size_eq := by
            rw [@length_flatMap_of_wide _ _ (lastDim tensor.shape)]
            · simp [List.prod_reverse]
            · intro index _
              rw [List.length_map]
              exact length_of_mem_lastRows (List.get_mem _ _) }

/-- Combine every row of the last dimension with its own parameter, as an
operation against `parameters.unsqueeze(-1)` does; other shapes are broadcast. -/
def zipLast (f : β → α → γ) (parameters : Tensor β) (tensor : Tensor α) :
    Except PyError (Tensor γ) :=
  if shapes : parameters.shape = tensor.shape.dropLast then
    .ok
      { shape := tensor.shape
        data := (List.zipWith (fun parameter row => row.map (f parameter))
          parameters.data tensor.lastRows).flatten
        size_eq := by
          have counted : parameters.data.length = tensor.lastRows.length := by
            rw [lastRows_length, parameters.size_eq, shapes]
          rw [tensor.size_eq.symm, tensor.size_eq_rows, ← lastRows_length]
          have wide : ∀ row ∈ tensor.lastRows,
              row.length = lastDim tensor.shape :=
            fun row member => length_of_mem_lastRows member
          generalize tensor.lastRows = lists at counted wide ⊢
          generalize parameters.data = items at counted
          induction lists generalizing items with
          | nil => simp
          | cons row lists induction =>
              cases items with
              | nil => simp at counted
              | cons item items =>
                  have rest := induction
                    (fun other member => wide other (by simp [member]))
                    items (by simpa using counted)
                  rw [List.zipWith_cons_cons, List.flatten_cons,
                    List.length_append, List.length_map,
                    wide row (by simp), rest, List.length_cons,
                    Nat.succ_mul, Nat.add_comm] }
  else broadcastLast f parameters tensor

theorem broadcastDims_self (sizes : List Nat) : broadcastDims sizes sizes = some sizes := by
  induction sizes with
  | nil => rfl
  | cons size sizes induction => rw [broadcastDims, if_pos (Or.inl rfl), induction]; rfl

theorem shape_of_zipLast {f : β → α → γ} {parameters : Tensor β} {tensor : Tensor α}
    {result : Tensor γ} (ranked : tensor.shape ≠ [])
    (zipped : zipLast f parameters tensor = .ok result) :
    ∃ wides, broadcastDims parameters.shape.reverse tensor.shape.dropLast.reverse =
        some wides ∧ result.shape = wides.reverse ++ [lastDim tensor.shape] := by
  unfold zipLast at zipped
  split at zipped
  · rename_i same
    refine ⟨tensor.shape.dropLast.reverse, ?_, ?_⟩
    · rw [same]
      exact broadcastDims_self _
    · rw [← Except.ok.inj zipped, List.reverse_reverse, lastDim,
        List.getLastD_eq_getLast?, List.getLast?_eq_getLast_of_ne_nil ranked]
      exact (List.dropLast_append_getLast ranked).symm
  · unfold broadcastLast at zipped
    split at zipped
    · cases zipped
    · rename_i wides shape
      rw [← Except.ok.inj zipped]
      exact ⟨wides, shape, rfl⟩

def reshape (tensor : Tensor α) (shape : List Nat) :
    Except PyError (Tensor α) :=
  if fits : tensor.data.length = shape.prod then .ok ⟨shape, tensor.data, fits⟩
  else .error (.runtimeError "shape is invalid for input")

/-- `reshape(*front, -1, *back)`: the missing dimension is inferred.  With a
zero among the given dimensions it is ambiguous, and PyTorch refuses. -/
def reshapeInfer (tensor : Tensor α) (front back : List Nat) :
    Except PyError (Tensor α) :=
  if (front ++ back).prod = 0 then
    .error (.runtimeError "the unspecified dimension size -1 is ambiguous")
  else
    tensor.reshape
      (front ++ tensor.data.length / (front ++ back).prod :: back)

theorem reshape_of_size {tensor : Tensor α} {shape : List Nat}
    (fits : tensor.data.length = shape.prod) :
    tensor.reshape shape = .ok ⟨shape, tensor.data, fits⟩ := by
  simp [reshape, fits]

theorem reshape_eq_ok {tensor result : Tensor α} {shape : List Nat} :
    tensor.reshape shape = .ok result ↔
      result.shape = shape ∧ result.data = tensor.data := by
  constructor
  · intro success
    unfold reshape at success
    split at success
    · cases success
      exact ⟨rfl, rfl⟩
    · cases success
  · rintro ⟨shapes, items⟩
    have fits : tensor.data.length = shape.prod := by
      rw [← items, ← shapes, result.size_eq]
    rw [reshape_of_size fits]
    congr 1
    exact Tensor.ext shapes.symm items.symm

theorem reshapeInfer_of_size {tensor : Tensor α} {front back : List Nat}
    {inferred : Nat}
    (known : (front ++ back).prod ≠ 0)
    (fits : tensor.data.length = (front ++ inferred :: back).prod) :
    tensor.reshapeInfer front back =
      .ok ⟨front ++ inferred :: back, tensor.data, fits⟩ := by
  have total : tensor.data.length = inferred * (front ++ back).prod := by
    rw [fits]
    simp only [List.prod_append, List.prod_cons]
    ring
  have quotient : tensor.data.length / (front ++ back).prod = inferred := by
    rw [total]
    exact Nat.mul_div_cancel _ (Nat.pos_of_ne_zero known)
  unfold reshapeInfer
  rw [if_neg known, quotient]
  exact reshape_of_size fits

/-- `torch.zeros(shape)` for the zero of the element type. -/
def full (shape : List Nat) (item : α) : Tensor α :=
  { shape := shape
    data := List.replicate shape.prod item
    size_eq := by simp }

/-- `tensor[start:stop]` along the first dimension, for tensors of rank at
least one. -/
def slice0 (tensor : Tensor α) (start stop : Int) : Tensor α :=
  match shape : tensor.shape with
  | [] => tensor
  | size :: rest =>
      { shape := (sliceBound size stop - sliceBound size start) :: rest
        data := (tensor.data.drop (sliceBound size start * rest.prod)).take
          ((sliceBound size stop - sliceBound size start) * rest.prod)
        size_eq := by
          have total := tensor.size_eq
          rw [shape, List.prod_cons] at total
          rw [List.length_take, List.length_drop, total, List.prod_cons,
            ← Nat.sub_mul]
          exact Nat.min_eq_left (Nat.mul_le_mul_right _
            (Nat.sub_le_sub_right (sliceBound_le size stop) _)) }

/-- `tensor[index]`. -/
def select0 (tensor : Tensor α) (index : Nat) : Except PyError (Tensor α) :=
  match shape : tensor.shape with
  | [] => .error .indexError
  | size :: rest =>
      if inside : index < size then
        .ok
          { shape := rest
            data := (tensor.data.drop (index * rest.prod)).take rest.prod
            size_eq := by
              have total := tensor.size_eq
              rw [shape, List.prod_cons] at total
              have room : (index + 1) * rest.prod ≤ size * rest.prod :=
                Nat.mul_le_mul_right _ inside
              rw [Nat.succ_mul] at room
              rw [List.length_take, List.length_drop, total]
              omega }
      else .error .indexError

/-- `destination[:stop].copy_(source)`, where the two sides have one shape. -/
def copyInto0 (destination : Tensor α) (stop : Int) (source : Tensor α) :
    Except PyError (Tensor α) :=
  if fits : (destination.slice0 0 stop).shape = source.shape ∧
      source.data.length ≤ destination.data.length then
    .ok
      { shape := destination.shape
        data := source.data ++ destination.data.drop source.data.length
        size_eq := by
          rw [List.length_append, List.length_drop, ← destination.size_eq]
          omega }
  else .error (.runtimeError "shapes do not match")

theorem slice0_shape {tensor : Tensor α} {size : Nat} {rest : List Nat}
    (shape : tensor.shape = size :: rest) (start stop : Int) :
    (tensor.slice0 start stop).shape =
      (sliceBound size stop - sliceBound size start) :: rest := by
  obtain ⟨tensorShape, items, exact⟩ := tensor
  simp only at shape
  subst shape
  rfl

theorem slice0_data {tensor : Tensor α} {size : Nat} {rest : List Nat}
    (shape : tensor.shape = size :: rest) (start stop : Int) :
    (tensor.slice0 start stop).data =
      (tensor.data.drop (sliceBound size start * rest.prod)).take
        ((sliceBound size stop - sliceBound size start) * rest.prod) := by
  obtain ⟨tensorShape, items, exact⟩ := tensor
  simp only at shape
  subst shape
  rfl

/-- `tensor[start:start + count]` inside the tensor. -/
theorem slice0_inside {tensor : Tensor α} {size start count : Nat}
    {rest : List Nat} (shape : tensor.shape = size :: rest)
    (inside : start + count ≤ size) :
    (tensor.slice0 start (start + count)).shape = count :: rest ∧
      (tensor.slice0 start (start + count)).data =
        (tensor.data.drop (start * rest.prod)).take (count * rest.prod) := by
  have stop : ((start : Int) + (count : Int)) = ((start + count : Nat) : Int) := by
    push_cast
    rfl
  have low : sliceBound size (start : Int) = start := by
    rw [sliceBound_natCast]
    omega
  have high : sliceBound size ((start : Int) + (count : Int)) = start + count := by
    rw [stop, sliceBound_natCast]
    omega
  have gap : start + count - start = count := by omega
  rw [slice0_shape shape, slice0_data shape, low, high, gap]
  exact ⟨rfl, rfl⟩

theorem select0_inside {tensor : Tensor α} {size index : Nat} {rest : List Nat}
    (shape : tensor.shape = size :: rest) (inside : index < size) :
    ∃ result, tensor.select0 index = .ok result ∧ result.shape = rest ∧
      result.data = (tensor.data.drop (index * rest.prod)).take rest.prod := by
  obtain ⟨tensorShape, items, exact⟩ := tensor
  simp only at shape
  subst shape
  unfold select0
  simp only [inside, dif_pos]
  exact ⟨_, rfl, rfl, rfl⟩

theorem copyInto0_inside {destination source : Tensor α} {size count : Nat}
    {rest : List Nat} (shape : destination.shape = size :: rest)
    (sourceShape : source.shape = count :: rest) (inside : count ≤ size) :
    ∃ result, destination.copyInto0 count source = .ok result ∧
      result.shape = size :: rest ∧
      result.data = source.data ++ destination.data.drop source.data.length := by
  have sliced : (destination.slice0 0 count).shape = count :: rest := by
    have room : 0 + count ≤ size := by omega
    have window := (slice0_inside shape room).1
    simpa using window
  have room : source.data.length ≤ destination.data.length := by
    rw [source.size_eq, destination.size_eq, shape, sourceShape, List.prod_cons,
      List.prod_cons]
    exact Nat.mul_le_mul_right _ inside
  have fits : (destination.slice0 0 count).shape = source.shape ∧
      source.data.length ≤ destination.data.length :=
    ⟨by rw [sliced, sourceShape], room⟩
  unfold copyInto0
  rw [dif_pos fits]
  exact ⟨_, rfl, shape, rfl⟩

/-- `torch.cat(tensors, dim=0)`. -/
def cat (tensors : List (Tensor α)) : Except PyError (Tensor α) :=
  match tensors with
  | [] => .error (.runtimeError "expected a non-empty list of tensors")
  | first :: others =>
      if agree : ∀ tensor ∈ first :: others,
          tensor.shape = tensor.shape.headD 0 :: first.shape.tail then
        .ok
          { shape := ((first :: others).map fun tensor =>
              tensor.shape.headD 0).sum :: first.shape.tail
            data := (first :: others).flatMap Tensor.data
            size_eq := by
              rw [List.prod_cons]
              generalize first :: others = tensors at agree ⊢
              induction tensors with
              | nil => simp
              | cons tensor tensors induction =>
                  have headShape := agree tensor (by simp)
                  have headSize := tensor.size_eq
                  rw [headShape, List.prod_cons] at headSize
                  have tail := induction (by
                    intro other member
                    exact agree other (by simp [member]))
                  rw [List.flatMap_cons, List.length_append, headSize, tail,
                    List.map_cons, List.sum_cons, Nat.add_mul] }
      else .error (.runtimeError "sizes of tensors must match except in dimension 0")

/-- `torch.stack(tensors)`. -/
def stack (tensors : List (Tensor α)) : Except PyError (Tensor α) :=
  match tensors with
  | [] => .error (.runtimeError "stack expects a non-empty list")
  | first :: others =>
      if agree : ∀ tensor ∈ first :: others, tensor.shape = first.shape then
        .ok
          { shape := (first :: others).length :: first.shape
            data := (first :: others).flatMap Tensor.data
            size_eq := by
              rw [List.prod_cons]
              generalize first :: others = tensors at agree ⊢
              induction tensors with
              | nil => simp
              | cons tensor tensors induction =>
                  have headSize := tensor.size_eq
                  rw [agree tensor (by simp)] at headSize
                  have tail := induction (by
                    intro other member
                    exact agree other (by simp [member]))
                  rw [List.flatMap_cons, List.length_append, headSize, tail,
                    List.length_cons, Nat.succ_mul, Nat.add_comm] }
      else .error (.runtimeError "stack expects each tensor to be equal size")

theorem cat_total {tensors : List (Tensor α)} {rest : List Nat}
    (nonempty : tensors ≠ [])
    (shapes : ∀ tensor ∈ tensors, ∃ count, tensor.shape = count :: rest) :
    ∃ joined, cat tensors = .ok joined ∧
      joined.shape = (tensors.map fun tensor => tensor.shape.headD 0).sum :: rest ∧
      joined.data = tensors.flatMap Tensor.data := by
  cases tensors with
  | nil => exact absurd rfl nonempty
  | cons first others =>
      obtain ⟨firstCount, firstShape⟩ := shapes first (by simp)
      have agree : ∀ tensor ∈ first :: others,
          tensor.shape = tensor.shape.headD 0 :: first.shape.tail := by
        intro tensor member
        obtain ⟨count, tensorShape⟩ := shapes tensor member
        simp [tensorShape, firstShape]
      unfold cat
      simp only [dif_pos agree]
      exact ⟨_, rfl, by simp [firstShape], rfl⟩

theorem cat_eq_of_data {tensors : List (Tensor α)} {result : Tensor α} {size : Nat}
    {rest : List Nat} (nonempty : tensors ≠ []) (positive : 0 < rest.prod)
    (shapes : ∀ tensor ∈ tensors, ∃ count, tensor.shape = count :: rest)
    (shape : result.shape = size :: rest)
    (items : result.data = tensors.flatMap Tensor.data) :
    cat tensors = .ok result := by
  obtain ⟨joined, joinedOk, joinedShape, joinedItems⟩ := cat_total nonempty shapes
  have same : joined.data = result.data := by rw [joinedItems, items]
  have sizes := joined.size_eq.symm.trans ((congrArg List.length same).trans result.size_eq)
  rw [joinedShape, shape, List.prod_cons, List.prod_cons] at sizes
  have heads := Nat.eq_of_mul_eq_mul_right positive sizes
  rw [joinedOk]
  congr 1
  exact Tensor.ext (by rw [joinedShape, shape, heads]) same

theorem stack_total {tensors : List (Tensor α)} {shape : List Nat} (nonempty : tensors ≠ [])
    (shapes : ∀ tensor ∈ tensors, tensor.shape = shape) :
    ∃ stacked, stack tensors = .ok stacked ∧ stacked.shape = tensors.length :: shape ∧
      stacked.data = tensors.flatMap Tensor.data := by
  cases tensors with
  | nil => exact absurd rfl nonempty
  | cons first others =>
      have firstShape : first.shape = shape := shapes first (by simp)
      have agree : ∀ tensor ∈ first :: others, tensor.shape = first.shape := by
        intro tensor member
        rw [shapes tensor member, firstShape]
      unfold stack
      simp only [dif_pos agree]
      exact ⟨_, rfl, by simp [firstShape], rfl⟩

end Tensor

end KVSSD
