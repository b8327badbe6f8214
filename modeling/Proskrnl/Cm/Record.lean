import Proskrnl.Library.Bytes
import Proskrnl.Lib.Crc32
import Proskrnl.Cm.KeyTree

/-!
# Hive records

`kernel/cm/hive.c`, the writer and the record reader of the PHV2 format. One walk serves the
measuring and the emitting pass: with no buffer only the offset advances. `CmpBeginRecord` leaves
room for the length and the checksum and `CmpEndRecord` patches them in.
-/

namespace Proskrnl.Cm
open Bytes List

/-- `CMP_WRITER`: no buffer is the measuring pass; a buffer is what has been written so far. -/
structure Writer where
  buffer : Option (List UInt8)
  offset : Nat
deriving DecidableEq

namespace Writer

def cmpWriteBytes (w : Writer) (data : List UInt8) : Writer :=
  { buffer := w.buffer.map (· ++ data), offset := w.offset + data.length }

def cmpWritePad (w : Writer) : Writer :=
  w.cmpWriteBytes (List.replicate (roundUp8 w.offset - w.offset) 0)

def cmpWrite16 (w : Writer) (value : Nat) : Writer := w.cmpWriteBytes (le 2 value)

def cmpWrite32 (w : Writer) (value : Nat) : Writer := w.cmpWriteBytes (le 4 value)

def cmpWrite64 (w : Writer) (value : Nat) : Writer := w.cmpWriteBytes (le 8 value)

/-- Overwrite bytes already written, at `start`. -/
def backpatch (w : Writer) (start : Nat) (data : List UInt8) : Writer :=
  { w with buffer := w.buffer.map fun b => b.take start ++ data ++ b.drop (start + data.length) }

/-- The fixed header and the path, whether captured or derived from the node; the
record's start is the offset of the writer it is given. -/
def cmpBeginRecord (w : Writer) (op keyFlags : UInt8) (path : WStr) (stamp : UInt64)
    (valueCount : Nat) : Writer :=
  let w := (w.cmpWrite32 0).cmpWrite32 0
  let w := w.cmpWriteBytes [op, keyFlags]
  let w := ((w.cmpWrite16 path.length).cmpWrite16 0).cmpWrite16 valueCount
  let w := w.cmpWrite64 stamp.toNat
  (w.cmpWriteBytes (ofUnits path)).cmpWritePad

/-- Pad, then patch in the length and the checksum of what follows them. -/
def cmpEndRecord (w : Writer) (start : Nat) : Writer :=
  let w := w.cmpWritePad
  let length := w.offset - start
  let w := w.backpatch start (le 4 length)
  let crc := kiCrc32 (((w.buffer.getD []).drop (start + 8)).take (length - 8))
  w.backpatch (start + 4) (le 4 crc.toNat)

def cmpWriteValue (w : Writer) (value : Value) : Writer :=
  let w := (w.cmpWrite16 value.name.length).cmpWrite16 0
  let w := (w.cmpWrite32 value.type.toNat).cmpWrite32 value.data.length
  ((w.cmpWriteBytes (ofUnits value.name)).cmpWriteBytes value.data).cmpWritePad

/-- The name tail of a DELETE_VALUE or RENAME_KEY record in `CmpLogRecord`. -/
def cmpWriteTailName (w : Writer) (name : WStr) : Writer :=
  (((w.cmpWrite16 name.length).cmpWrite16 0).cmpWriteBytes (ofUnits name)).cmpWritePad

/-- A whole record whose tail is written by `tail`. -/
def writeRecord (w : Writer) (op keyFlags : UInt8) (path : WStr) (stamp : UInt64)
    (valueCount : Nat) (tail : Writer → Writer) : Writer :=
  (tail (w.cmpBeginRecord op keyFlags path stamp valueCount)).cmpEndRecord w.offset

end Writer

def encodeValue (value : Value) : List UInt8 :=
  pad8 (le 2 value.name.length ++ le 2 0 ++ le 4 value.type.toNat ++ le 4 value.data.length ++
    ofUnits value.name ++ value.data)

def encodeTailName (name : WStr) : List UInt8 :=
  pad8 (le 2 name.length ++ le 2 0 ++ ofUnits name)

/-- What stands in a record after its length and checksum. -/
def recordContent (op keyFlags : UInt8) (path : WStr) (stamp : UInt64) (valueCount : Nat)
    (tail : List UInt8) : List UInt8 :=
  [op, keyFlags] ++ le 2 path.length ++ le 2 0 ++ le 2 valueCount ++ le 8 stamp.toNat ++
    pad8 (ofUnits path) ++ pad8 tail

def encodeRecord (op keyFlags : UInt8) (path : WStr) (stamp : UInt64) (valueCount : Nat)
    (tail : List UInt8) : List UInt8 :=
  let content := recordContent op keyFlags path stamp valueCount tail
  le 4 (content.length + 8) ++ le 4 (kiCrc32 content).toNat ++ content

namespace Writer

/-- What has been written is as long as the offset says, and records start on eight bytes. -/
structure Aligned (w : Writer) : Prop where
  length_eq : ∀ b, w.buffer = some b → b.length = w.offset
  offset_mod : w.offset % 8 = 0

theorem cmpWriteBytes_cmpWriteBytes (w : Writer) (a b : List UInt8) :
    (w.cmpWriteBytes a).cmpWriteBytes b = w.cmpWriteBytes (a ++ b) := by
  simp only [cmpWriteBytes, Option.map_map, length_append, Writer.mk.injEq]
  refine ⟨?_, by omega⟩
  cases w.buffer <;> simp

@[simp] theorem cmpWriteBytes_offset (w : Writer) (a : List UInt8) :
    (w.cmpWriteBytes a).offset = w.offset + a.length := rfl

theorem cmpWriteBytes_nil (w : Writer) : w.cmpWriteBytes [] = w := by
  cases w with
  | mk buffer offset => cases buffer <;> simp [cmpWriteBytes]

theorem Aligned.cmpWriteBytes {w : Writer} (hw : w.Aligned) {a : List UInt8}
    (ha : a.length % 8 = 0) : (w.cmpWriteBytes a).Aligned where
  length_eq b hb := by
    simp only [Writer.cmpWriteBytes, Option.map_eq_some_iff] at hb ⊢
    obtain ⟨b', hb', rfl⟩ := hb
    rw [length_append, hw.length_eq b' hb']
  offset_mod := by
    have := hw.offset_mod
    simp only [cmpWriteBytes_offset]
    omega

theorem Aligned.cmpWritePad {w : Writer} (hw : w.Aligned) (a : List UInt8) :
    (w.cmpWriteBytes a).cmpWritePad = w.cmpWriteBytes (pad8 a) := by
  have hlen : roundUp8 (w.offset + a.length) - (w.offset + a.length) =
      roundUp8 a.length - a.length := by
    rw [roundUp8_add _ hw.offset_mod]; omega
  rw [Writer.cmpWritePad, cmpWriteBytes_offset, hlen, cmpWriteBytes_cmpWriteBytes]
  rfl

theorem Aligned.backpatch {w : Writer} (hw : w.Aligned) (a : List UInt8) {x z : List UInt8}
    (y : List UInt8) (hxz : x.length = z.length) :
    (w.cmpWriteBytes (a ++ (x ++ y))).backpatch (w.offset + a.length) z =
      w.cmpWriteBytes (a ++ (z ++ y)) := by
  cases w with
  | mk buffer offset =>
    cases buffer with
    | none => simp [Writer.backpatch, Writer.cmpWriteBytes, hxz]
    | some b =>
      have hb : b.length = offset := hw.length_eq b rfl
      simp only [Writer.backpatch, Writer.cmpWriteBytes, Option.map_some, ← hb, Writer.mk.injEq,
        Option.some.injEq, length_append, hxz, and_true]
      have htake : (b ++ (a ++ (x ++ y))).take (b.length + a.length) = b ++ a := by
        rw [← append_assoc]; exact take_left' (length_append)
      have hdrop : (b ++ (a ++ (x ++ y))).drop (b.length + a.length + z.length) = y := by
        rw [← append_assoc, ← append_assoc]
        exact drop_left' (by simp [hxz, Nat.add_assoc])
      rw [htake, hdrop, append_assoc, append_assoc]

/-- `tail` writes `bytes` wherever a record's tail may start. -/
def Writes (tail : Writer → Writer) (bytes : List UInt8) : Prop :=
  ∀ w : Writer, w.Aligned → tail w = w.cmpWriteBytes bytes

theorem cmpWriteValue_writes (value : Value) :
    Writes (·.cmpWriteValue value) (encodeValue value) := by
  intro w hw
  simp only [cmpWriteValue, cmpWrite16, cmpWrite32, cmpWriteBytes_cmpWriteBytes,
    hw.cmpWritePad, encodeValue, append_assoc]

theorem cmpWriteTailName_writes (name : WStr) :
    Writes (·.cmpWriteTailName name) (encodeTailName name) := by
  intro w hw
  simp only [cmpWriteTailName, cmpWrite16, cmpWriteBytes_cmpWriteBytes, hw.cmpWritePad,
    encodeTailName, append_assoc]

variable {w : Writer}

theorem cmpBeginRecord_eq (hw : w.Aligned) (op keyFlags : UInt8) (path : WStr)
    (stamp : UInt64) (valueCount : Nat) :
    w.cmpBeginRecord op keyFlags path stamp valueCount =
      w.cmpWriteBytes (le 4 0 ++ (le 4 0 ++ ([op, keyFlags] ++ le 2 path.length ++ le 2 0 ++
        le 2 valueCount ++ le 8 stamp.toNat ++ pad8 (ofUnits path)))) := by
  simp only [cmpBeginRecord, cmpWrite16, cmpWrite32, cmpWrite64, cmpWriteBytes_cmpWriteBytes,
    hw.cmpWritePad]
  rw [pad8_append _ (by simp)]
  simp only [append_assoc]

theorem cmpEndRecord_eq (hw : w.Aligned) (content : List UInt8) :
    (w.cmpWriteBytes (le 4 0 ++ (le 4 0 ++ content))).cmpEndRecord w.offset =
      w.cmpWriteBytes (le 4 ((pad8 content).length + 8) ++
        (le 4 (kiCrc32 (pad8 content)).toNat ++ pad8 content)) := by
  have hpad : pad8 (le 4 0 ++ (le 4 0 ++ content)) = le 4 0 ++ (le 4 0 ++ pad8 content) := by
    rw [← append_assoc, pad8_append _ (by simp), append_assoc]
  rw [cmpEndRecord, hw.cmpWritePad, hpad]
  generalize pad8 content = content
  have hlength : w.offset + (le 4 0 ++ (le 4 0 ++ content)).length - w.offset =
      content.length + 8 := by
    simp only [length_append, length_le]; omega
  have h1 := hw.backpatch [] (z := le 4 (content.length + 8)) (le 4 0 ++ content)
    (x := le 4 0) (by simp)
  rw [length_nil, Nat.add_zero, nil_append, nil_append] at h1
  simp only [cmpWriteBytes_offset, hlength, h1]
  have h2 := fun crc => hw.backpatch (le 4 (content.length + 8)) (z := le 4 crc) content
    (x := le 4 0) (by simp)
  rw [length_le] at h2
  rw [h2]
  -- the checksum is computed over the emitted bytes; the measuring pass has none to patch
  cases hb : w.buffer with
  | none => simp [cmpWriteBytes, hb]
  | some b =>
    have hcrc : (((w.cmpWriteBytes (le 4 (content.length + 8) ++ (le 4 0 ++ content))).buffer.getD
        []).drop (w.offset + 8)).take (content.length + 8 - 8) = content := by
      simp only [cmpWriteBytes, hb, Option.map_some, Option.getD_some, ← hw.length_eq b hb]
      rw [← append_assoc, ← append_assoc, drop_left' (by simp),
        take_of_length_le (by omega)]
    rw [hcrc]

/-- A whole record appends its encoding, in the measuring pass and in the emitting one. -/
theorem writeRecord_eq (hw : w.Aligned) {tail : Writer → Writer}
    {bytes : List UInt8} (htail : Writes tail bytes) (op keyFlags : UInt8) (path : WStr)
    (stamp : UInt64) (valueCount : Nat) :
    w.writeRecord op keyFlags path stamp valueCount tail =
      w.cmpWriteBytes (encodeRecord op keyFlags path stamp valueCount bytes) := by
  have hmod : ([op, keyFlags] ++ le 2 path.length ++ le 2 0 ++ le 2 valueCount ++
      le 8 stamp.toNat ++ pad8 (ofUnits path)).length % 8 = 0 := by
    have := roundUp8_mod (2 * path.length)
    simp; omega
  have halign := hw.cmpWriteBytes (a := le 4 0 ++ (le 4 0 ++ ([op, keyFlags] ++
    le 2 path.length ++ le 2 0 ++ le 2 valueCount ++ le 8 stamp.toNat ++ pad8 (ofUnits path))))
    (by rw [length_append, length_append, length_le]; omega)
  rw [writeRecord, cmpBeginRecord_eq hw, htail _ halign, cmpWriteBytes_cmpWriteBytes,
    append_assoc, append_assoc, cmpEndRecord_eq hw, pad8_append _ hmod]
  simp only [encodeRecord, recordContent, append_assoc]

end Writer

/-- `CMP_RECORD`. -/
structure Record where
  op : UInt8
  keyFlags : UInt8
  valueCount : Nat
  lastWriteTime : UInt64
  path : WStr
  tail : List UInt8
deriving DecidableEq

/-- `CmpReadRecord` on the bytes from the reader's offset on: the record and the bytes after it. The
path's `Length` is a `USHORT`, so a count of 32768 units or more wraps. -/
def cmpReadRecord (p : List UInt8) : Option (Record × List UInt8) :=
  if p.length < 24 then none
  else
    let length := field p 0 4
    if length < 24 ∨ length % 8 ≠ 0 ∨ length > p.length then none
    else if (kiCrc32 ((p.drop 8).take (length - 8))).toNat ≠ field p 4 4 then none
    else
      let pathChars := field p 10 2
      if field p 12 2 ≠ 0 then none
      else
        let pathBytes := 2 * pathChars
        let tailStart := roundUp8 (24 + pathBytes)
        if tailStart > length then none
        else
          some ({ op := UInt8.ofNat (field p 8 1), keyFlags := UInt8.ofNat (field p 9 1),
                  valueCount := field p 14 2, lastWriteTime := UInt64.ofNat (field p 16 8),
                  path := toUnits ((p.drop 24).take (pathBytes % 65536)),
                  tail := (p.drop tailStart).take (length - tailStart) }, p.drop length)

/-- The node with the values applied so far, and whether the tail was well formed
to the end. -/
def cmpApplyValues : Nat → List UInt8 → Key → Key × Bool
  | 0, _, node => (node, true)
  | count + 1, cursor, node =>
    if cursor.length < 12 then (node, false)
    else
      let nameBytes := 2 * field cursor 0 2
      let type := UInt32.ofNat (field cursor 4 4)
      let dataBytes := field cursor 8 4
      let used := roundUp8 (12 + nameBytes + dataBytes)
      if used > cursor.length then (node, false)
      else
        let name := toUnits ((cursor.drop 12).take (nameBytes % 65536))
        let data := (cursor.drop (12 + nameBytes)).take dataBytes
        cmpApplyValues count (cursor.drop used) (cmpSetValue node name type data)

def cmpReadTailName (tail : List UInt8) : Option WStr :=
  if tail.length < 4 then none
  else
    let nameBytes := 2 * field tail 0 2
    if 4 + nameBytes > tail.length then none
    else some (toUnits ((tail.drop 4).take (nameBytes % 65536)))

theorem length_recordContent (op keyFlags : UInt8) (path : WStr) (stamp : UInt64)
    (valueCount : Nat) (tail : List UInt8) :
    (recordContent op keyFlags path stamp valueCount tail).length =
      16 + roundUp8 (2 * path.length) + roundUp8 tail.length := by
  simp [recordContent]; omega

@[simp] theorem length_encodeRecord (op keyFlags : UInt8) (path : WStr) (stamp : UInt64)
    (valueCount : Nat) (tail : List UInt8) :
    (encodeRecord op keyFlags path stamp valueCount tail).length =
      24 + roundUp8 (2 * path.length) + roundUp8 tail.length := by
  simp only [encodeRecord, length_append, length_le, length_recordContent]; omega

/-- The reader takes a written record off the front of any bytes, as long as no field of it was
truncated in writing. -/
theorem cmpReadRecord_encodeRecord {op keyFlags : UInt8} {path : WStr} {stamp : UInt64}
    {valueCount : Nat} {tail : List UInt8} (rest : List UInt8) (hpath : path.length < 32768)
    (hcount : valueCount < 65536)
    (hlength : (encodeRecord op keyFlags path stamp valueCount tail).length < 2 ^ 32) :
    cmpReadRecord (encodeRecord op keyFlags path stamp valueCount tail ++ rest) =
      some ({ op, keyFlags, valueCount, lastWriteTime := stamp, path, tail := pad8 tail },
        rest) := by
  have hlen := length_encodeRecord op keyFlags path stamp valueCount tail
  have hcl := length_recordContent op keyFlags path stamp valueCount tail
  have hm1 := roundUp8_mod (2 * path.length)
  have hm2 := roundUp8_mod tail.length
  have hround : roundUp8 (24 + 2 * path.length) = 24 + roundUp8 (2 * path.length) :=
    roundUp8_add _ (by decide)
  set content := recordContent op keyFlags path stamp valueCount tail with hcontent
  have hp : encodeRecord op keyFlags path stamp valueCount tail ++ rest =
      le 4 (content.length + 8) ++ (le 4 (kiCrc32 content).toNat ++ (content ++ rest)) := by
    simp only [encodeRecord, ← hcontent, append_assoc]
  have hflat : content ++ rest = op :: keyFlags :: (le 2 path.length ++ (le 2 0 ++
      (le 2 valueCount ++ (le 8 stamp.toNat ++
        (pad8 (ofUnits path) ++ (pad8 tail ++ rest)))))) := by
    simp [hcontent, recordContent]
  set p := encodeRecord op keyFlags path stamp valueCount tail ++ rest with hpdef
  have hplen : p.length = content.length + 8 + rest.length := by
    rw [hp]; simp; omega
  have hf0 : field p 0 4 = content.length + 8 := by
    rw [hp, field_le, Nat.mod_eq_of_lt (by omega)]
  have hf4 : field p 4 4 = (kiCrc32 content).toNat := by
    rw [hp, field_append (by simp), length_le, Nat.sub_self, field_le,
      Nat.mod_eq_of_lt (by have := (kiCrc32 content).toNat_lt; omega)]
  have hdrop8 : p.drop 8 = content ++ rest := by
    rw [hp, ← append_assoc]; exact drop_left' (by simp)
  have hfield : ∀ off w, field p (off + 8) w = field (content ++ rest) off w := by
    intro off w
    rw [field, field, Nat.add_comm, ← drop_drop, hdrop8]
  have hf8 : UInt8.ofNat (field p 8 1) = op := by
    rw [hfield 0, hflat, field_byte]
  have hf9 : UInt8.ofNat (field p 9 1) = keyFlags := by
    rw [hfield 1, hflat, field_cons, field_byte]
  have hf10 : field p 10 2 = path.length := by
    rw [hfield 2, hflat, field_cons, field_cons, field_le, Nat.mod_eq_of_lt (by omega)]
  have hf12 : field p 12 2 = 0 := by
    rw [hfield 4, hflat]; simp [field_cons, field_append, field_le]
  have hf14 : field p 14 2 = valueCount := by
    rw [hfield 6, hflat]; simp [field_cons, field_append, field_le]; omega
  have hf16 : UInt64.ofNat (field p 16 8) = stamp := by
    rw [hfield 8, hflat]
    simp [field_cons, field_append, field_le, Nat.mod_eq_of_lt stamp.toNat_lt]
  have hrec : p.drop 24 = pad8 (ofUnits path) ++ (pad8 tail ++ rest) := by
    rw [show 24 = 8 + 16 from rfl, ← drop_drop, hdrop8, hflat]
    simp [drop_append, drop_eq_nil_of_le]
  have hpathEq : toUnits ((p.drop 24).take (2 * path.length % 65536)) = path := by
    rw [Nat.mod_eq_of_lt (by omega), hrec, ← length_ofUnits, take_pad8, toUnits_ofUnits]
  have htail : (p.drop (24 + roundUp8 (2 * path.length))).take
      (content.length + 8 - (24 + roundUp8 (2 * path.length))) = pad8 tail := by
    rw [← drop_drop, hrec, drop_left' (by simp)]
    exact take_left' (by simp; omega)
  have hrest : p.drop (content.length + 8) = rest := by
    rw [hpdef]; exact drop_left' (by omega)
  have hcrc : ((p.drop 8).take (content.length + 8 - 8)) = content := by
    rw [hdrop8]; exact take_left' (by omega)
  unfold cmpReadRecord
  simp only [hf0, hf4, hf8, hf9, hf10, hf12, hf14, hf16, hround, hpathEq, htail, hrest, hcrc]
  rw [if_neg (by omega), if_neg (by omega), if_neg (by simp), if_neg (by simp),
    if_neg (by omega)]

theorem cmpReadRecord_append {p rest : List UInt8} {record : Record}
    (h : cmpReadRecord p = some (record, rest)) (b : List UInt8) :
    cmpReadRecord (p ++ b) = some (record, rest ++ b) := by
  unfold cmpReadRecord at h ⊢
  split at h
  · cases h
  rename_i hlen
  have hfield : ∀ off w, off + w ≤ 24 → field (p ++ b) off w = field p off w := fun off w hle =>
    field_append_left b (by omega)
  have hslice : ∀ i j, i + j ≤ p.length → ((p ++ b).drop i).take j = (p.drop i).take j := by
    intro i j hij
    rw [drop_append_of_le_length (by omega), take_append_of_le_length (by simp; omega)]
  rw [if_neg (by rw [length_append]; omega)]
  simp only [hfield 0 4 (by omega), hfield 4 4 (by omega), hfield 8 1 (by omega),
    hfield 9 1 (by omega), hfield 10 2 (by omega), hfield 12 2 (by omega),
    hfield 14 2 (by omega), hfield 16 8 (by omega)]
  simp only at h
  split at h
  · cases h
  rename_i hlength
  rw [if_neg (by rw [length_append]; omega), hslice _ _ (by omega)]
  split at h
  · cases h
  rename_i hcrc
  rw [if_neg hcrc]
  split at h
  · cases h
  rename_i hreserved
  rw [if_neg hreserved]
  split at h
  · cases h
  rename_i htail
  have hround := le_roundUp8 (24 + 2 * field p 10 2)
  have hmod := Nat.mod_le (2 * field p 10 2) 65536
  rw [if_neg htail, hslice 24 _ (by omega), hslice _ _ (by omega),
    drop_append_of_le_length (by omega)]
  cases h
  rfl

structure Value.Fits (value : Value) : Prop where
  name_lt : value.name.length < 32768
  data_lt : value.data.length < 2 ^ 32

@[simp] theorem length_encodeValue (value : Value) :
    (encodeValue value).length = roundUp8 (12 + 2 * value.name.length + value.data.length) := by
  simp [encodeValue]; congr 1; omega

theorem cmpApplyValues_encodeValue {value : Value} (hv : value.Fits) (count : Nat)
    (rest : List UInt8) (node : Key) :
    cmpApplyValues (count + 1) (encodeValue value ++ rest) node =
      cmpApplyValues count rest (cmpSetValue node value.name value.type value.data) := by
  have hname := hv.name_lt
  have hdata := hv.data_lt
  have hlen := length_encodeValue value
  have hle := le_roundUp8 (12 + 2 * value.name.length + value.data.length)
  set cursor := encodeValue value ++ rest with hcursor
  have hcl : cursor.length =
      roundUp8 (12 + 2 * value.name.length + value.data.length) + rest.length := by
    rw [hcursor, length_append, hlen]
  obtain ⟨pad, hpad⟩ : ∃ pad, cursor = le 2 value.name.length ++ (le 2 0 ++
      (le 4 value.type.toNat ++ (le 4 value.data.length ++
        (ofUnits value.name ++ (value.data ++ pad))))) := by
    rw [hcursor, encodeValue, pad8]
    simp only [append_assoc]
    exact ⟨_, rfl⟩
  have hf0 : field cursor 0 2 = value.name.length := by
    rw [hpad, field_le, Nat.mod_eq_of_lt (by omega)]
  have hf4 : UInt32.ofNat (field cursor 4 4) = value.type := by
    rw [hpad]; simp [field_append, field_le, Nat.mod_eq_of_lt value.type.toNat_lt]
  have hf8 : field cursor 8 4 = value.data.length := by
    rw [hpad]; simp [field_append, field_le]; omega
  have hdrop : cursor.drop 12 = ofUnits value.name ++ (value.data ++ pad) := by
    rw [hpad]; simp [drop_append, drop_eq_nil_of_le]
  have hn : toUnits ((cursor.drop 12).take (2 * value.name.length % 65536)) = value.name := by
    rw [Nat.mod_eq_of_lt (by omega), hdrop, take_left' (by simp), toUnits_ofUnits]
  have hd : (cursor.drop (12 + 2 * value.name.length)).take value.data.length = value.data := by
    rw [← drop_drop, hdrop, drop_left' (by simp), take_left' rfl]
  have hrest : cursor.drop (roundUp8 (12 + 2 * value.name.length + value.data.length)) = rest := by
    rw [hcursor]; exact drop_left' hlen
  simp only [cmpApplyValues, hf0, hf4, hf8, hn, hd, hrest]
  rw [if_neg (by omega), if_neg (by omega)]

theorem cmpApplyValues_flatMap {values : List Value} (hv : ∀ v ∈ values, v.Fits)
    (rest : List UInt8) (node : Key) :
    cmpApplyValues values.length (values.flatMap encodeValue ++ rest) node =
      (values.foldl (fun node v => cmpSetValue node v.name v.type v.data) node, true) := by
  induction values generalizing node with
  | nil => rfl
  | cons v values ih =>
    rw [flatMap_cons, append_assoc, length_cons,
      cmpApplyValues_encodeValue (hv v mem_cons_self), ih fun w hw => hv w (.tail _ hw)]
    rfl

theorem cmpReadTailName_encodeTailName {name : WStr} (hname : name.length < 32768)
    (rest : List UInt8) : cmpReadTailName (encodeTailName name ++ rest) = some name := by
  have hle := le_roundUp8 (4 + 2 * name.length)
  have hlen : (encodeTailName name).length = roundUp8 (4 + 2 * name.length) := by
    simp [encodeTailName]; congr 1; omega
  set tail := encodeTailName name ++ rest with htail
  have htl : tail.length = roundUp8 (4 + 2 * name.length) + rest.length := by
    rw [htail, length_append, hlen]
  obtain ⟨pad, hpad⟩ : ∃ pad, tail = le 2 name.length ++ (le 2 0 ++ (ofUnits name ++ pad)) := by
    rw [htail, encodeTailName, pad8]
    simp only [append_assoc]
    exact ⟨_, rfl⟩
  have hf0 : field tail 0 2 = name.length := by
    rw [hpad, field_le, Nat.mod_eq_of_lt (by omega)]
  have hn : toUnits ((tail.drop 4).take (2 * name.length % 65536)) = name := by
    rw [Nat.mod_eq_of_lt (by omega), hpad]
    simp [drop_append, drop_eq_nil_of_le, take_left', toUnits_ofUnits]
  simp only [cmpReadTailName, hf0, hn]
  rw [if_neg (by omega), if_neg (by omega)]

end Proskrnl.Cm
