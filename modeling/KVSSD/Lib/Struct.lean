import KVSSD.Lib.Python
import Mathlib.Tactic.Ring

/-!
# Fixed little-endian binary layouts

The integer part of Python's `struct` module for `<` formats: unsigned fields
of one, two, four or eight bytes, stored with the least significant byte
first and without padding.  A layout is the list of its field widths.
-/

namespace KVSSD.Struct

open KVSSD.Python

abbrev Bytes := List UInt8

/-- The `width` low-order bytes of a number, least significant first. -/
def leBytes : Nat → Nat → Bytes
  | 0, _ => []
  | width + 1, value => UInt8.ofNat value :: leBytes width (value / 256)

/-- The number a little-endian byte string denotes. -/
def leNat : Bytes → Nat
  | [] => 0
  | byte :: bytes => byte.toNat + 256 * leNat bytes

@[simp] theorem leBytes_length (width value : Nat) :
    (leBytes width value).length = width := by
  induction width generalizing value with
  | zero => rfl
  | succ width induction => simp [leBytes, induction]

theorem leNat_leBytes {width value : Nat} (fits : value < 256 ^ width) :
    leNat (leBytes width value) = value := by
  induction width generalizing value with
  | zero =>
      have zero : value = 0 := by simpa using fits
      simp [leBytes, leNat, zero]
  | succ width induction =>
      have quotient : value / 256 < 256 ^ width := by
        rw [Nat.div_lt_iff_lt_mul (by norm_num), ← Nat.pow_succ]
        exact fits
      have low : (UInt8.ofNat value).toNat = value % 256 := by
        simp [UInt8.toNat_ofNat']
      rw [leBytes, leNat, induction quotient, low]
      exact Nat.mod_add_div value 256

theorem leNat_lt (bytes : Bytes) : leNat bytes < 256 ^ bytes.length := by
  induction bytes with
  | nil => simp [leNat]
  | cons byte bytes induction =>
      have small := byte.toNat_lt
      rw [leNat, List.length_cons, Nat.pow_succ]
      omega

theorem leBytes_leNat (bytes : Bytes) :
    leBytes bytes.length (leNat bytes) = bytes := by
  induction bytes with
  | nil => rfl
  | cons byte bytes induction =>
      have small := byte.toNat_lt
      have quotient : (byte.toNat + 256 * leNat bytes) / 256 = leNat bytes := by
        omega
      have low : UInt8.ofNat (byte.toNat + 256 * leNat bytes) = byte := by
        apply UInt8.toNat_inj.mp
        simp only [UInt8.toNat_ofNat']
        omega
      rw [leNat, List.length_cons, leBytes, quotient, low, induction]

/-- `struct.pack` for one unsigned field: out-of-range values are refused. -/
def packField (width : Nat) (value : Int) : Except PyError Bytes :=
  if 0 ≤ value ∧ value < 256 ^ width then .ok (leBytes width value.toNat)
  else .error .structError

/-- `struct.pack` for consecutive unsigned fields, given as width and value. -/
def packFields : List (Nat × Int) → Except PyError Bytes
  | [] => .ok []
  | (width, value) :: fields => do
      let head ← packField width value
      let tail ← packFields fields
      return head ++ tail

/-- Read consecutive unsigned fields of the given widths.  The caller checks
that the buffer has the size of the layout. -/
def unpackFields : List Nat → Bytes → List Nat
  | [], _ => []
  | width :: widths, bytes =>
      leNat (bytes.take width) :: unpackFields widths (bytes.drop width)

/-- Every value of a field list fits its width. -/
def Fits (fields : List (Nat × Int)) : Prop :=
  ∀ field ∈ fields, 0 ≤ field.2 ∧ field.2 < 256 ^ field.1

theorem fits_cons {width : Nat} {value : Int} {fields : List (Nat × Int)} :
    Fits ((width, value) :: fields) ↔
      (0 ≤ value ∧ value < 256 ^ width) ∧ Fits fields := by
  simp [Fits]

/-- Packing succeeds exactly on fields that fit, and then the layout of the
widths reads the values back. -/
theorem packFields_of_fits {fields : List (Nat × Int)} (fits : Fits fields) :
    ∃ bytes, packFields fields = .ok bytes ∧
      bytes.length = (fields.map Prod.fst).sum ∧
      ∀ rest, unpackFields (fields.map Prod.fst) (bytes ++ rest) =
        fields.map fun field => field.2.toNat := by
  induction fields with
  | nil => exact ⟨[], rfl, rfl, fun _ => rfl⟩
  | cons field fields induction =>
      obtain ⟨width, value⟩ := field
      obtain ⟨valueFits, tailFits⟩ := fits_cons.mp fits
      obtain ⟨tail, tailPacked, tailLength, tailRead⟩ := induction tailFits
      have natFits : value.toNat < 256 ^ width := by
        have upper := valueFits.2
        have cast : ((256 ^ width : Nat) : Int) = 256 ^ width := by push_cast; rfl
        rw [← cast] at upper
        omega
      refine ⟨leBytes width value.toNat ++ tail, ?_, ?_, ?_⟩
      · simp only [packFields, packField, if_pos valueFits, tailPacked]
        rfl
      · simp [tailLength]
      · intro rest
        have headTake :
            (leBytes width value.toNat ++ tail ++ rest).take width =
              leBytes width value.toNat := by
          rw [List.append_assoc]
          exact List.take_left' (leBytes_length _ _)
        have headDrop :
            (leBytes width value.toNat ++ tail ++ rest).drop width =
              tail ++ rest := by
          rw [List.append_assoc]
          exact List.drop_left' (leBytes_length _ _)
        simp only [List.map_cons, unpackFields, headTake, headDrop,
          leNat_leBytes natFits, tailRead]

theorem fits_of_packFields {fields : List (Nat × Int)} {bytes : Bytes}
    (packed : packFields fields = .ok bytes) : Fits fields := by
  induction fields generalizing bytes with
  | nil => simp [Fits]
  | cons field fields induction =>
      obtain ⟨width, value⟩ := field
      rw [fits_cons]
      by_cases valueFits : 0 ≤ value ∧ value < 256 ^ width
      · cases tailResult : packFields fields with
        | error raised =>
            simp [packFields, packField, valueFits, tailResult, bind,
              Except.bind] at packed
        | ok tail => exact ⟨valueFits, induction tailResult⟩
      · simp [packFields, packField, valueFits, bind, Except.bind] at packed

theorem lt_of_mem_unpackFields {count width value : Nat} {bytes : Bytes}
    (member : value ∈ unpackFields (List.replicate count width) bytes) :
    value < 256 ^ width := by
  induction count generalizing bytes with
  | zero => simp [unpackFields] at member
  | succ count induction =>
      rw [List.replicate_succ, unpackFields] at member
      rcases List.mem_cons.mp member with head | tail
      · subst head
        have bound := leNat_lt (bytes.take width)
        have shorter : (bytes.take width).length ≤ width := by
          rw [List.length_take]
          exact Nat.min_le_left _ _
        exact Nat.lt_of_lt_of_le bound
          (Nat.pow_le_pow_right (by norm_num) shorter)
      · exact induction tail

@[simp] theorem unpackFields_length (widths : List Nat) (bytes : Bytes) :
    (unpackFields widths bytes).length = widths.length := by
  induction widths generalizing bytes with
  | nil => rfl
  | cons width widths induction => simp [unpackFields, induction]

end KVSSD.Struct
