import Proskrnl.Library.Bytes
import Proskrnl.Library.Outcome

/-!
# Loads that can trap

A program that reads a block of bytes, built with its checks on: a load that leaves the block, a load
through a pointer that is not aligned for its type, and an assertion that fails all stop it. `Stop` puts
the errors the program itself answers with beside these. The rules are those of `Ends`, so that a pass
over a program shows which stops it can meet.
-/

namespace Traps

open Proskrnl.Outcome

/-- What ends a computation in place of a result: a trap, or an answer of the program. -/
inductive Stop (σ : Type)
  | outside
  | misaligned
  | assertion
  | refused (status : σ)
  deriving DecidableEq

variable {σ : Type} {block : List UInt8} {align record offset width : Nat} {allowed : Stop σ → Prop}

/-- The field at `offset` of a record at `record` of the block, through a pointer to the record, whose
type is aligned to `align`; the block is aligned for every type. -/
def member (block : List UInt8) (align record offset width : Nat) : Except (Stop σ) Nat :=
  if record % align ≠ 0 then .error .misaligned
  else if block.length < record + offset + width then .error .outside
  else .ok (Bytes.field block (record + offset) width)

/-- The bytes a `memcpy` takes; it needs no alignment. -/
def copied (block : List UInt8) (offset width : Nat) : Except (Stop σ) (List UInt8) :=
  if block.length < offset + width then .error .outside
  else .ok ((block.drop offset).take width)

/-- A number a `memcpy` takes. -/
def copiedField (block : List UInt8) (offset width : Nat) : Except (Stop σ) Nat :=
  member block 1 0 offset width

def assert (c : Prop) [Decidable c] : Except (Stop σ) Unit :=
  if c then .ok () else .error .assertion

theorem member_eq (halign : record % align = 0) (hin : record + offset + width ≤ block.length) :
    member block align record offset width =
      (.ok (Bytes.field block (record + offset) width) : Except (Stop σ) Nat) := by
  rw [member, if_neg (not_not.mpr halign), if_neg (Nat.not_lt.mpr hin)]

theorem member_misaligned (halign : record % align ≠ 0) :
    member block align record offset width = (.error .misaligned : Except (Stop σ) Nat) := if_pos halign

theorem copied_eq (hin : offset + width ≤ block.length) :
    copied block offset width = (.ok ((block.drop offset).take width) : Except (Stop σ) _) :=
  if_neg (Nat.not_lt.mpr hin)

theorem copiedField_eq (hin : offset + width ≤ block.length) :
    copiedField block offset width = (.ok (Bytes.field block offset width) : Except (Stop σ) Nat) := by
  rw [copiedField, member_eq (Nat.mod_one _) (by omega), Nat.zero_add]

/-- An answer of the program as a result, so that the program can go on behind it. -/
def answered {α : Type} : Except (Stop σ) α → Except (Stop σ) (Except σ α)
  | .ok a => .ok (.ok a)
  | .error (.refused s) => .ok (.error s)
  | .error .outside => .error .outside
  | .error .misaligned => .error .misaligned
  | .error .assertion => .error .assertion

theorem assert_eq {c : Prop} [Decidable c] (h : c) : assert c = (.ok () : Except (Stop σ) Unit) := if_pos h

end Traps
