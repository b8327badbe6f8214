import Mathlib

/-!
# Paths through a space with links

A space of nodes, some of which are links. A path is a list of components; it is walked from a node
until it meets a link, or a node at which the walk stops, or its end. What a path denotes is found by
putting the components of the target in place of what was walked, and walking from the root again.
-/

namespace Paths
open List
variable {ν α : Type}

structure Space (ν α : Type) where
  root : ν
  child : ν → α → Option ν
  /-- The walk stops here, and the rest of the path belongs to the node. -/
  stops : ν → Bool
  isLink : ν → Bool
  isDirectory : ν → Bool
  /-- Where a link leads to, from the root. -/
  target : ν → Option (List α)

inductive Met (ν α : Type)
  | link (l : ν) (rest : List α)
  | stop (n : ν) (rest : List α)
  | object (n : ν)
  | free (parent : ν) (name : α)

/-- The walk from a node. A link at the end is met if it is to be followed. -/
def meet (S : Space ν α) (follow : Bool) : ν → List α → Option (Met ν α)
  | _, [] => none
  | d, c :: rest =>
    match S.child d c with
    | none => if rest.isEmpty then some (.free d c) else none
    | some n =>
      if S.stops n then some (.stop n rest)
      else if S.isLink n && (!rest.isEmpty || follow) then some (.link n rest)
      else if rest.isEmpty then some (.object n)
      else if S.isDirectory n then meet S follow n rest
      else none

def Met.IsEnd : Met ν α → Prop
  | .link .. => False
  | _ => True

inductive Denotes (S : Space ν α) (follow : Bool) : ν → List α → Met ν α → Prop
  | here {d : ν} {path : List α} {m : Met ν α} (hmeet : meet S follow d path = some m)
      (hend : m.IsEnd) : Denotes S follow d path m
  | link {d l : ν} {path rest target : List α} {m : Met ν α}
      (hmeet : meet S follow d path = some (.link l rest)) (htarget : S.target l = some target)
      (hrest : Denotes S follow S.root (target ++ rest) m) : Denotes S follow d path m

section
variable {S : Space ν α} {follow : Bool} {d : ν} {path : List α} {m m' : Met ν α}

theorem meet_none {c : α} {rest : List α} (h : S.child d c = none) :
    meet S follow d (c :: rest) = if rest.isEmpty then some (.free d c) else none := by
  rw [meet, h]

theorem meet_some {c : α} {rest : List α} {n : ν} (h : S.child d c = some n) :
    meet S follow d (c :: rest) =
      if S.stops n then some (.stop n rest)
      else if S.isLink n && (!rest.isEmpty || follow) then some (.link n rest)
      else if rest.isEmpty then some (.object n)
      else if S.isDirectory n then meet S follow n rest
      else none := by
  rw [meet, h]

theorem isLink_of_meet {l : ν} {rest : List α} (h : meet S follow d path = some (.link l rest)) :
    S.isLink l := by
  induction path generalizing d with
  | nil => cases h
  | cons c path ih =>
    cases hchild : S.child d c with
    | none =>
      rw [meet_none hchild] at h
      split at h <;> cases h
    | some n =>
      rw [meet_some hchild] at h
      split at h
      · cases h
      · split at h
        · rename_i hlink
          cases h
          exact (Bool.and_eq_true_iff.mp hlink).1
        · split at h
          · cases h
          · split at h
            · exact ih h
            · cases h

theorem Denotes.of_meet {d' : ν} {path' : List α} (h : Denotes S follow d' path' m)
    (hmeet : meet S follow d path = meet S follow d' path') : Denotes S follow d path m := by
  cases h with
  | here hmeet' hend => exact .here (hmeet.trans hmeet') hend
  | link hmeet' htarget hrest => exact .link (hmeet.trans hmeet') htarget hrest

end

section
variable [DecidableEq α] {sep : α}

/-- A text up to its first separator, and the rest behind it, if there is one. -/
def cut (sep : α) : List α → List α × Option (List α)
  | [] => ([], none)
  | a :: text => if a = sep then ([], some text) else (a :: (cut sep text).1, (cut sep text).2)

def components (sep : α) : Option (List α) → List (List α)
  | none => []
  | some text => text.splitOn sep

def behind (sep : α) : Option (List α) → List α
  | none => []
  | some text => sep :: text

theorem splitOn_eq_cut (text : List α) :
    text.splitOn sep = (cut sep text).1 :: components sep (cut sep text).2 := by
  induction text with
  | nil => rfl
  | cons a text ih =>
    rw [splitOn_cons_eq_if_modifyHead, cut]
    by_cases ha : a = sep
    · rw [if_pos ha, if_pos (beq_iff_eq.mpr ha)]
      rfl
    · rw [if_neg ha, if_neg (by simpa using ha), ih]
      rfl

theorem cut_append_behind (sep : α) (text : List α) :
    (cut sep text).1 ++ behind sep (cut sep text).2 = text := by
  induction text with
  | nil => rfl
  | cons a text ih =>
    rw [cut]
    split
    · rename_i ha
      rw [ha]
      rfl
    · exact congrArg (a :: ·) ih

theorem length_of_cut {text rest : List α} (h : (cut sep text).2 = some rest) :
    rest.length < text.length := by
  induction text with
  | nil => cases h
  | cons a text ih =>
    rw [cut] at h
    split at h
    · cases h
      exact Nat.lt_succ_self _
    · exact (ih h).trans (Nat.lt_succ_self _)

theorem splitOn_append_behind (text : List α) (rest : Option (List α)) :
    (text ++ behind sep rest).splitOn sep = text.splitOn sep ++ components sep rest := by
  cases rest with
  | none => simp [components, behind]
  | some r => exact splitOn_append_cons_self text r

theorem components_injective : Function.Injective (components sep) := by
  intro a b h
  cases a with
  | none =>
    cases b with
    | none => rfl
    | some text => exact (splitOn_ne_nil sep text h.symm).elim
  | some text =>
    cases b with
    | none => exact (splitOn_ne_nil sep text h).elim
    | some text' =>
      have hjoin := congrArg (List.intercalate [sep]) h
      rw [components, components, intercalate_splitOn, intercalate_splitOn] at hjoin
      rw [hjoin]

theorem components_isEmpty (rest : Option (List α)) :
    (components sep rest).isEmpty = rest.isNone := by
  cases rest with
  | none => rfl
  | some text =>
    rw [components, isEmpty_eq_false_iff.mpr (splitOn_ne_nil sep text)]
    rfl

end

end Paths
