import Mathlib.Data.List.Basic
import Mathlib.Data.List.Induction

/-!
# Trees of named parent links

A tree is given by what is above each of its nodes: a parent and the name that the node has there.
`Descends up w names i` says that `names` lead from `w` down to `i`. Where siblings have different
names, a node is known by its names from the root, and their prefixes are those of the nodes above it.
The rules at the end say what a new, a lost and a moved node leave as it was.
-/

namespace NamedTrees
open List
variable {ι κ : Type} {up up' : ι → Option (ι × κ)} {root w i j p f : ι} {names names' : List κ} {n : κ}

inductive Descends {ι κ : Type} (up : ι → Option (ι × κ)) (w : ι) : List κ → ι → Prop
  | refl : Descends up w [] w
  | step {p c : ι} {names : List κ} {n : κ} (h : Descends up w names p) (hc : up c = some (p, n)) :
    Descends up w (names ++ [n]) c

def Distinct (up : ι → Option (ι × κ)) : Prop := ∀ i j x, up i = some x → up j = some x → i = j

structure Rooted (up : ι → Option (ι × κ)) (root : ι) : Prop where
  top : up root = none
  reached : ∀ i x, up i = some x → ∃ names, Descends up root names i

theorem Descends.trans (h : Descends up w names i) (h' : Descends up i names' j) :
    Descends up w (names ++ names') j := by
  induction h' with
  | refl => rwa [append_nil]
  | step _ hc ih =>
    rw [← append_assoc]
    exact ih.step hc

theorem Descends.unique (htop : up root = none) (h : Descends up root names i)
    (h' : Descends up root names' i) : names = names' := by
  induction h generalizing names' with
  | refl =>
    cases h' with
    | refl => rfl
    | step _ hc => exact nomatch htop.symm.trans hc
  | step _ hc ih =>
    cases h' with
    | refl => exact nomatch htop.symm.trans hc
    | step h' hc' =>
      cases hc.symm.trans hc'
      rw [ih h']

theorem Descends.injective (hdistinct : Distinct up) (h : Descends up root names i)
    (h' : Descends up root names j) : i = j := by
  induction h generalizing j with
  | refl =>
    generalize hnil : ([] : List κ) = l at h'
    cases h' with
    | refl => rfl
    | step => simp at hnil
  | @step p c names n _ hc ih =>
    generalize hlast : names ++ [n] = l at h'
    cases h' with
    | refl => simp at hlast
    | @step p' c' names' n' h' hc' =>
      obtain ⟨rfl, hn⟩ := append_inj' hlast rfl
      cases hn
      cases ih h'
      exact hdistinct _ _ _ hc hc'

theorem Descends.of_append (hdistinct : Distinct up) (h : Descends up root names w)
    (h' : Descends up root (names ++ names') i) : Descends up w names' i := by
  induction names' using List.reverseRecOn generalizing i with
  | nil =>
    rw [append_nil] at h'
    cases h.injective hdistinct h'
    exact .refl
  | append_singleton names' n ih =>
    generalize hlast : names ++ (names' ++ [n]) = l at h'
    rw [← append_assoc] at hlast
    cases h' with
    | refl => simp at hlast
    | step h' hc =>
      obtain ⟨rfl, hn⟩ := append_inj' hlast rfl
      cases hn
      exact (ih h').step hc

/-- A node is below another just where it has that one's names first. -/
theorem descends_iff (hrooted : Rooted up root) (hdistinct : Distinct up) (hw : Descends up root names w)
    (hi : Descends up root names' i) (rest : List κ) :
    Descends up w rest i ↔ names' = names ++ rest := by
  constructor
  · intro h
    exact hi.unique hrooted.top (hw.trans h)
  · intro h
    exact hw.of_append hdistinct (h ▸ hi)

theorem Descends.mono (hup : ∀ c x, up c = some x → up' c = some x) (h : Descends up w names i) :
    Descends up' w names i := by
  induction h with
  | refl => exact .refl
  | step _ hc ih => exact ih.step (hup _ _ hc)

theorem Descends.congr_off (hup : ∀ c, c ≠ f → up' c = up c) (hnot : ∀ names, ¬Descends up f names i)
    (h : Descends up w names i) : Descends up' w names i := by
  induction h with
  | refl => exact .refl
  | @step p c names n _ hc ih =>
    have hne : c ≠ f := by
      rintro rfl
      exact hnot [] .refl
    exact (ih fun names h => hnot _ (h.step hc)).step ((hup c hne).trans hc)

theorem Descends.eq_of_leaf (hleaf : ∀ c n, up c ≠ some (f, n)) (h : Descends up f names i) : i = f := by
  induction h with
  | refl => rfl
  | step _ hc ih =>
    subst ih
    exact absurd hc (hleaf _ _)

section
variable (h : Rooted up root) (hup : ∀ c, c ≠ f → up' c = up c)
include h hup

theorem Rooted.add (hf : up f = none) (hroot : f ≠ root)
    (hparent : ∃ names, Descends up root names p) (hnew : up' f = some (p, n)) : Rooted up' root := by
  have hmono : ∀ c x, up c = some x → up' c = some x := by
    intro c x hc
    refine (hup c ?_).trans hc
    rintro rfl
    exact nomatch hf.symm.trans hc
  refine ⟨(hup root hroot.symm).trans h.top, fun i x hi => ?_⟩
  by_cases hif : i = f
  · subst hif
    obtain ⟨names, hnames⟩ := hparent
    exact ⟨_, (hnames.mono hmono).step hnew⟩
  · rw [hup i hif] at hi
    obtain ⟨names, hnames⟩ := h.reached i x hi
    exact ⟨names, hnames.mono hmono⟩

theorem Rooted.remove (hf : up' f = none)
    (hleaf : ∀ c n, up c ≠ some (f, n)) : Rooted up' root := by
  constructor
  · by_cases hroot : root = f
    · exact hroot ▸ hf
    · exact (hup root hroot).trans h.top
  · intro i x hi
    have hne : i ≠ f := by
      rintro rfl
      exact nomatch hf.symm.trans hi
    rw [hup i hne] at hi
    obtain ⟨names, hnames⟩ := h.reached i x hi
    exact ⟨names, hnames.congr_off hup fun _ hbelow => hne (hbelow.eq_of_leaf hleaf)⟩

theorem Rooted.move (hroot : f ≠ root)
    (hparent : ∃ names, Descends up root names p) (hnot : ∀ names, ¬Descends up f names p)
    (hnew : up' f = some (p, n)) : Rooted up' root := by
  refine ⟨(hup root hroot.symm).trans h.top, fun i x hi => ?_⟩
  have hmoved : ∃ names, Descends up' root names f := by
    obtain ⟨names, hnames⟩ := hparent
    exact ⟨_, (hnames.congr_off hup hnot).step hnew⟩
  have hall {names : List κ} {i : ι} (hi : Descends up root names i) : ∃ names, Descends up' root names i := by
    induction hi with
    | refl => exact ⟨[], .refl⟩
    | @step p c names n _ hc ih =>
      by_cases hcf : c = f
      · exact hcf ▸ hmoved
      · obtain ⟨names', hnames'⟩ := ih
        exact ⟨_, hnames'.step ((hup c hcf).trans hc)⟩
  by_cases hif : i = f
  · exact hif ▸ hmoved
  · rw [hup i hif] at hi
    obtain ⟨names, hnames⟩ := h.reached i x hi
    exact hall hnames

end

section
variable {α : Type} {sep : α} {text : List α} {l l' : List (List α)}

def spelled (sep : α) (l : List (List α)) : List α := l.flatMap (sep :: ·)

def Proper (sep : α) (l : List (List α)) : Prop := ∀ n ∈ l, n ≠ [] ∧ sep ∉ n

theorem spelled_cons (n : List α) (l : List (List α)) : spelled sep (n :: l) = sep :: (n ++ spelled sep l) :=
  rfl

def Breaks (sep : α) (text : List α) : Prop := text = [] ∨ ∃ t, text = sep :: t

theorem breaks_spelled (l : List (List α)) (htext : Breaks sep text) : Breaks sep (spelled sep l ++ text) := by
  cases l with
  | nil => exact htext
  | cons n l => exact .inr ⟨n ++ spelled sep l ++ text, rfl⟩

theorem name_append_inj [DecidableEq α] {n n' text text' : List α} (hn : sep ∉ n) (hn' : sep ∉ n') (htext : Breaks sep text)
    (htext' : Breaks sep text') (h : n ++ text = n' ++ text') : n = n' ∧ text = text' := by
  have hcut {n text : List α} (hn : sep ∉ n) (htext : Breaks sep text) :
      (n ++ text).takeWhile (· ≠ sep) = n := by
    rw [takeWhile_append_of_pos fun x hx => by simpa using fun h : x = sep => hn (h ▸ hx)]
    rcases htext with rfl | ⟨t, rfl⟩
    · rw [takeWhile_nil, append_nil]
    · rw [takeWhile_cons_of_neg (by simp), append_nil]
  have hname : n = n' := by
    rw [← hcut hn htext, h, hcut hn' htext']
  subst hname
  exact ⟨rfl, append_cancel_left h⟩

/-- A spelled list with one more separator is in front of the lists that have its names and then more. -/
theorem spelled_isPrefix_iff [DecidableEq α] (hl : Proper sep l) (hl' : Proper sep l') :
    spelled sep l ++ [sep] <+: spelled sep l' ↔ ∃ n rest, l' = l ++ n :: rest := by
  constructor
  · intro ⟨t, ht⟩
    induction l generalizing l' with
    | nil =>
      cases l' with
      | nil => cases ht
      | cons n rest => exact ⟨n, rest, rfl⟩
    | cons a l ih =>
      cases l' with
      | nil => cases ht
      | cons b l' =>
        obtain ⟨ha, hrest⟩ := forall_mem_cons.mp hl
        obtain ⟨hb, hrest'⟩ := forall_mem_cons.mp hl'
        have htail : a ++ (spelled sep l ++ ([sep] ++ t)) = b ++ (spelled sep l' ++ []) := by
          rw [spelled_cons, spelled_cons, cons_append, cons_append, append_assoc,
            append_assoc] at ht
          rw [append_nil]
          exact (List.cons.inj ht).2
        obtain ⟨rfl, heq⟩ := name_append_inj ha.2 hb.2 (breaks_spelled l (.inr ⟨t, rfl⟩))
          (breaks_spelled l' (.inl rfl)) htail
        rw [append_nil] at heq
        obtain ⟨n, rest, rfl⟩ := ih hrest hrest' ((append_assoc _ _ _).trans heq)
        exact ⟨n, rest, rfl⟩
  · rintro ⟨n, rest, rfl⟩
    refine ⟨n ++ spelled sep rest, ?_⟩
    unfold spelled
    rw [flatMap_append, append_assoc]
    rfl

theorem spelled_injective [DecidableEq α] (hl : Proper sep l) (hl' : Proper sep l') (h : spelled sep l = spelled sep l') :
    l = l' := by
  induction l generalizing l' with
  | nil =>
    cases l' with
    | nil => rfl
    | cons b l' => cases h
  | cons a l ih =>
    cases l' with
    | nil => cases h
    | cons b l' =>
      obtain ⟨ha, hrest⟩ := forall_mem_cons.mp hl
      obtain ⟨hb, hrest'⟩ := forall_mem_cons.mp hl'
      have htail : a ++ (spelled sep l ++ []) = b ++ (spelled sep l' ++ []) := by
        rw [append_nil, append_nil]
        exact (List.cons.inj h).2
      obtain ⟨rfl, heq⟩ := name_append_inj ha.2 hb.2 (breaks_spelled l (.inl rfl))
        (breaks_spelled l' (.inl rfl)) htail
      rw [append_nil, append_nil] at heq
      rw [ih hrest hrest' heq]

end

end NamedTrees
