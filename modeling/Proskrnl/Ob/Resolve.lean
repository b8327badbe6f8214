import Proskrnl.Ob.Lookup

/-!
# What a name denotes

The namespace is a space with links (`Paths.Space`). Every turn of the walk either goes one directory
further along the path, or puts the target of the first link that the path meets in place of what
leads there, or ends; and it holds one reference, on the directory where it is (`lookupTurn_turned`).
-/

namespace Proskrnl.Ob
open List Option
open Ps (Body HandleTable HandleEntry AccessMask)
open Paths (Space Met meet Denotes cut components splitOn_eq_cut length_of_cut splitOn_append_behind
  components_isEmpty)

/-- What a directory has under a name. A component that is empty names nothing. -/
def LookupRequest.child (q : LookupRequest) (s : ObState) (d : Body) (component : WStr) :
    Option Body :=
  match component, (s.objects d).map Object.body with
  | _ :: _, some (.directory entries) =>
    entries.find? fun c => (s.objects c).any fun o => equalNames q.caseInsensitive o.name component
  | _, _ => none

def LookupRequest.space (q : LookupRequest) (s : ObState) : Space Body WStr where
  root := s.root
  child := q.child s
  stops b := q.parseType.isSome && s.type b = q.parseType
  isLink b := s.type b = some .symbolicLink
  isDirectory b := s.type b = some .directory
  target l :=
    match s.target l with
    | [] => none
    | c :: units => if c = backslash then some (units.splitOn backslash) else none

def LookupResult.met : LookupResult → Option (Met Body WStr)
  | .failed _ => none
  | .object b => some (.object b)
  | .parse b remaining => some (.stop b (components backslash (remaining.map CountedString.units)))
  | .leaf parent name => some (.free parent name)

def LookupResult.referenced : LookupResult → Option Body
  | .failed _ => none
  | .object b => some b
  | .parse b _ => some b
  | .leaf parent _ => some parent

structure LookupResult.Sound (r : LookupResult) (s : ObState) : Prop where
  live : ∀ b ∈ r.referenced, s.Live b
  leaf : ∀ parent name, r = .leaf parent name → s.type parent = some .directory ∧ name ≠ []

def ObState.after (s : ObState) (r : LookupResult) : ObState :=
  match r.referenced with
  | none => s
  | some b => s.bump b

structure Walk.Good (w : Walk) (s : ObState) : Prop where
  current : s.type w.current = some .directory
  reparses : w.reparses ≤ obpMaxReparses
  log : w.log.length = w.reparses

section
variable (q : LookupRequest) (s : ObState)

def Walk.meets (w : Walk) : Option (Met Body WStr) :=
  meet (q.space s) q.followFinalLink w.current (w.remaining.units.splitOn backslash)

structure Walk.Substitutes (w : Walk) (link : Body) (rest : Option CountedString) : Prop where
  meets : w.meets q s = some (.link link (components backslash (rest.map CountedString.units)))
  odd : ∀ r ∈ rest, r.odd = w.remaining.odd
  reparses : w.reparses < obpMaxReparses
  length : (rebuild (s.target link) rest).1.length ≤ obpMaxNameUnits
  pool : q.pool w.reparses

inductive Turned (w : Walk) : Turn → Prop
  | refused (status : NtStatus) (hnot : ∀ link rest, ¬ w.Substitutes q s link rest) :
    Turned w (.ended (.failed status) w.log)
  | found (r : LookupResult) (hmeets : w.meets q s = r.met) (hend : ∀ m ∈ r.met, m.IsEnd)
      (hsound : r.Sound s) :
    Turned w (.ended r w.log)
  | descended (child : Body) (rest : WStr) (htype : s.type child = some .directory)
      (hrest : rest.length < w.remaining.units.length)
      (hmeets : w.meets q s =
        meet (q.space s) q.followFinalLink child (rest.splitOn backslash)) :
    Turned w (.again { w with current := child, remaining := ⟨rest, w.remaining.odd⟩ })
  | broken (link : Body) (rest : Option CountedString) (status : NtStatus)
      (h : w.Substitutes q s link rest) :
    Turned w (.ended (.failed status) (w.log ++ [(rebuild (s.target link) rest).2]))
  | substituted (link : Body) (rest : Option CountedString) (units : WStr)
      (h : w.Substitutes q s link rest)
      (hunits : (rebuild (s.target link) rest).1 = backslash :: units) :
    Turned w (.again
      { current := s.root
        remaining := ⟨units, false⟩
        reparses := w.reparses + 1
        reparsedFinal := rest.isNone
        log := w.log ++ [(rebuild (s.target link) rest).2] })

def ObState.at : Turn → ObState
  | .again w => s.bump w.current
  | .ended r _ => s.after r

end

section
variable {q : LookupRequest} {s : ObState} {caller : Caller} {w : Walk} {b d : Body}

theorem LookupResult.Sound.failed {status : NtStatus} : (LookupResult.failed status).Sound s := by
  constructor
  · intro b hb
    cases hb
  · intro parent name h
    cases h

theorem body_bump : ((s.bump b).objects d).map Object.body = (s.objects d).map Object.body := by
  rw [objects_bump]
  cases s.objects d <;> rfl

theorem any_bump {f : Object → Bool} (hf : ∀ o n, f { o with pointerCount := n } = f o) :
    ((s.bump b).objects d).any f = (s.objects d).any f := by
  rw [objects_bump]
  cases s.objects d with
  | none => rfl
  | some o => exact hf o _

@[simp] theorem target_bump : (s.bump b).target d = s.target d := by
  unfold ObState.target
  rw [body_bump]

theorem obpFindEntry_bump (component : WStr) (ci : Bool) :
    obpFindEntry (s.bump b) d component ci = obpFindEntry s d component ci := by
  unfold obpFindEntry
  rw [body_bump]
  have hany : ∀ c, (((s.bump b).objects c).any fun o => equalNames ci o.name component) =
      (s.objects c).any fun o => equalNames ci o.name component := fun c => any_bump fun _ _ => rfl
  simp only [hany]

variable {component : WStr} {rest : Option CountedString} {link : Body}

theorem obpFindEntry_eq (hs : s.WellFormed caller) (hd : s.type d = some .directory)
    (hne : component ≠ []) :
    obpFindEntry s d component q.caseInsensitive = .ok (q.child s d component) ∧
      ∀ c, q.child s d component = some c → (s.objects c).isSome := by
  obtain ⟨o, ho, htype⟩ := map_eq_some_iff.mp hd
  obtain ⟨entries, hbody, hentries⟩ := hs.directory d o ho htype
  obtain ⟨unit, units, rfl⟩ := exists_cons_of_ne_nil hne
  have hmap : (s.objects d).map Object.body = some (.directory entries) := by
    rw [ho, map_some, hbody]
  constructor
  · unfold obpFindEntry LookupRequest.child
    rw [hmap]
  · intro c hc
    unfold LookupRequest.child at hc
    rw [hmap] at hc
    exact hentries c (mem_of_find?_eq_some hc)

theorem ObState.WellFormed.target_ne_nil (hs : s.WellFormed caller) {l : Body}
    (hl : s.type l = some .symbolicLink) : s.target l ≠ [] := by
  obtain ⟨o, ho, htype⟩ := map_eq_some_iff.mp hl
  obtain ⟨target, hbody, hne⟩ := hs.symbolicLink l o ho htype
  unfold ObState.target
  rw [ho, map_some, hbody]
  exact hne

theorem ObState.WellFormed.root_type (hs : s.WellFormed caller) :
    s.type s.root = some .directory := by
  obtain ⟨o, ho, htype⟩ := hs.root
  unfold ObState.type
  rw [ho, map_some, htype]

theorem ObState.WellFormed.live_of_type (hs : s.WellFormed caller) {t : ObjectType}
    (hb : s.type b = some t) : s.Live b := by
  apply hs.live
  obtain ⟨o, ho, -⟩ := map_eq_some_iff.mp hb
  rw [ho]
  rfl

theorem Walk.leave_eq (hlive : s.Live w.current) (status : NtStatus) :
    w.leave (s.bump w.current) status = .ok (s, .ended (.failed status) w.log) := by
  unfold Walk.leave
  rw [obDereferenceObject_bump hlive]
  rfl

theorem Walk.hand_eq (hlive : s.Live w.current) (hb : s.Live b) :
    w.hand (s.bump w.current) b = .ok (s.bump b) := by
  unfold Walk.hand
  rw [obfReferenceObject_eq (hb.bump _)]
  exact obDereferenceObject_bump_bump hlive

theorem rebuild_ne_nil {target : WStr} (h : target ≠ []) (rest : Option CountedString) :
    (rebuild target rest).1 ≠ [] := by
  unfold rebuild
  split
  · exact h
  · split
    · exact append_ne_nil_of_left_ne_nil h _
    · split
      · exact append_ne_nil_of_left_ne_nil h _
      · exact h

theorem CountedString.units_eq_nil {n : CountedString} (h : n.bytes = 0) : n.units = [] := by
  unfold CountedString.bytes at h
  apply eq_nil_of_length_eq_zero
  omega

theorem Walk.meets_eq {rest : Option WStr}
    (hcut : cut backslash w.remaining.units = (component, rest)) :
    w.meets q s =
      meet (q.space s) q.followFinalLink w.current (component :: components backslash rest) := by
  unfold Walk.meets
  rw [splitOn_eq_cut, hcut]

theorem not_substitutes (h : ∀ l rest, w.meets q s ≠ some (.link l rest)) (link : Body)
    (rest : Option CountedString) : ¬ w.Substitutes q s link rest :=
  fun hsub => h _ _ hsub.meets

theorem not_link_of_none {rest : List WStr} (follow : Bool)
    (hchild : q.child s d component = none) (l : Body) (r : List WStr) :
    meet (q.space s) follow d (component :: rest) ≠ some (.link l r) := by
  rw [Paths.meet_none hchild]
  split <;> exact fun h => by cases h

/-! ## A substitution -/

theorem Walk.Substitutes.unique {link' : Body} {rest' : Option CountedString}
    (h : w.Substitutes q s link rest)
    (hmeets : w.meets q s = some (.link link' (components backslash (rest'.map CountedString.units))))
    (hodd : ∀ r ∈ rest', r.odd = w.remaining.odd) : link = link' ∧ rest = rest' := by
  have hmet := some.inj (h.meets.symm.trans hmeets)
  injection hmet with hlink hcomponents
  refine ⟨hlink, ?_⟩
  have hunits := Paths.components_injective hcomponents
  cases rest with
  | none =>
    cases rest' with
    | none => rfl
    | some r' => cases hunits
  | some r =>
    cases rest' with
    | none => cases hunits
    | some r' =>
      have hoddr := (h.odd r rfl).trans (hodd r' rfl).symm
      cases r
      cases r'
      cases hoddr
      cases some.inj hunits
      rfl

theorem reparse_turned (hs : s.WellFormed caller) (hw : w.Good s)
    (hlink : s.type link = some .symbolicLink)
    (hmeets : w.meets q s = some (.link link (components backslash (rest.map CountedString.units))))
    (hodd : ∀ r ∈ rest, r.odd = w.remaining.odd) :
    ∃ t, reparse q w (s.bump w.current) link rest = .ok (s.at t, t) ∧ Turned q s w t := by
  have hlive := hs.live_of_type hw.current
  have hrefused : ∀ status, ¬ (w.reparses < obpMaxReparses ∧
      (rebuild (s.target link) rest).1.length ≤ obpMaxNameUnits ∧ q.pool w.reparses) →
      ∃ t, w.leave (s.bump w.current) status = .ok (s.at t, t) ∧ Turned q s w t := by
    intro status hnot
    refine ⟨.ended (.failed status) w.log, Walk.leave_eq hlive status, .refused status ?_⟩
    intro l r h
    obtain ⟨rfl, rfl⟩ := h.unique hmeets hodd
    exact hnot ⟨h.reparses, h.length, h.pool⟩
  unfold reparse
  rw [target_bump]
  split
  · rename_i hover
    exact hrefused _ fun h => absurd hover (Nat.not_lt.mpr h.1)
  · rename_i hreparses
    have hlt : w.reparses < obpMaxReparses := Nat.lt_of_succ_le (Nat.not_lt.mp hreparses)
    dsimp only
    split
    · rename_i hover
      exact hrefused _ fun h => absurd hover (Nat.not_lt.mpr h.2.1)
    · rename_i hlength
      rw [if_neg (rebuild_ne_nil (hs.target_ne_nil hlink) rest)]
      split
      · rename_i hpool
        exact hrefused _ fun h => by simp [h.2.2] at hpool
      · rename_i hpool
        have hsub : w.Substitutes q s link rest :=
          ⟨hmeets, hodd, hlt, Nat.not_lt.mp hlength, by simpa using hpool⟩
        rw [obDereferenceObject_bump hlive]
        dsimp only [bind, Except.bind]
        split
        · exact ⟨.ended _ _, rfl, .broken link rest _ hsub⟩
        · rename_i c remaining hunits
          split
          · exact ⟨.ended _ _, rfl, .broken link rest _ hsub⟩
          · rename_i hc
            split
            · exact ⟨.ended _ _, rfl, .broken link rest _ hsub⟩
            · rw [obfReferenceObject_eq (hs.live_of_type hs.root_type)]
              rw [not_not.mp hc] at hunits
              dsimp only
              rw [root_bump]
              exact ⟨.again _, rfl, .substituted link rest remaining hsub hunits⟩

/-! ## A turn -/

theorem lookupChild_turned (hs : s.WellFormed caller) (hw : w.Good s)
    {units : Option WStr} (hcut : cut backslash w.remaining.units = (component, units))
    {child : Body} (hchild : q.child s w.current component = some child) (hb : s.Live child) :
    ∃ t, lookupChild q w (s.bump w.current) child
        (units.map fun units => ⟨units, w.remaining.odd⟩) = .ok (s.at t, t) ∧ Turned q s w t := by
  have hlive := hs.live_of_type hw.current
  have hmeets := (w.meets_eq (q := q) (s := s) hcut).trans (Paths.meet_some hchild)
  have hunits : (units.map fun units => (⟨units, w.remaining.odd⟩ : CountedString)).map
      CountedString.units = units := by
    cases units <;> rfl
  have hisSome : (units.map fun units => (⟨units, w.remaining.odd⟩ : CountedString)).isSome =
      !(components backslash units).isEmpty := by
    cases units <;> simp [components_isEmpty]
  have hrefused : ∀ status, (∀ l r, w.meets q s ≠ some (.link l r)) →
      ∃ t, w.leave (s.bump w.current) status = .ok (s.at t, t) ∧ Turned q s w t := fun status h =>
    ⟨.ended (.failed status) w.log, Walk.leave_eq hlive status,
      .refused status (not_substitutes h)⟩
  unfold lookupChild
  simp only [type_bump]
  split
  · rename_i hparse
    rw [Walk.hand_eq hlive hb]
    refine ⟨.ended (.parse child _) w.log, rfl, .found _ ?_ ?_ ⟨?_, fun _ _ h => by cases h⟩⟩
    · rw [hmeets, if_pos]
      · simp only [LookupResult.met, hunits]
      · simp [LookupRequest.space, hparse]
    · intro m hm
      cases hm
      trivial
    · intro b hb'
      cases hb'
      exact hb
  · rename_i hparse
    have hstops : (q.space s).stops child = false := by
      simpa [LookupRequest.space] using hparse
    rw [hstops, if_neg Bool.false_ne_true] at hmeets
    split
    · rename_i htrailing
      have hlink : (q.space s).isLink child = false := by
        simpa [LookupRequest.space] using htrailing.2
      rw [hlink, Bool.false_and, if_neg Bool.false_ne_true] at hmeets
      apply hrefused
      intro l r
      rw [hmeets]
      cases units with
      | none => cases htrailing.1
      | some units =>
        have hempty : units = [] :=
          CountedString.units_eq_nil (n := ⟨units, w.remaining.odd⟩) (by simpa using htrailing.1)
        subst hempty
        show (if (q.space s).isDirectory child then _ else none) ≠ _
        split
        · exact not_link_of_none _ rfl l r
        · exact fun h => by cases h
    · rename_i htrailing
      split
      · rename_i hlink
        apply reparse_turned hs hw hlink.1
        · rw [hunits, hmeets, if_pos]
          rw [← hisSome]
          simpa [LookupRequest.space, hlink.1] using hlink.2
        · intro r hr
          obtain ⟨units, -, rfl⟩ := map_eq_some_iff.mp hr
          rfl
      · rename_i hlink
        rw [← hisSome, if_neg (by simpa [LookupRequest.space] using hlink)] at hmeets
        cases units with
        | none =>
          dsimp only [map_none]
          rw [Walk.hand_eq hlive hb]
          refine ⟨.ended (.object child) w.log, rfl,
            .found _ hmeets ?_ ⟨?_, fun _ _ h => by cases h⟩⟩
          · intro m hm
            cases hm
            trivial
          · intro b hb'
            cases hb'
            exact hb
        | some units =>
          replace hmeets : w.meets q s =
              if s.type child = some .directory then
                meet (q.space s) q.followFinalLink child (units.splitOn backslash)
              else none := by
            rw [hmeets, components_isEmpty]
            simp [LookupRequest.space, components]
          dsimp only [map_some]
          split
          · rename_i hdirectory
            apply hrefused
            intro l r
            rw [hmeets, if_neg hdirectory]
            exact fun h => by cases h
          · rename_i hdirectory
            rw [if_pos (not_not.mp hdirectory)] at hmeets
            rw [Walk.hand_eq hlive hb]
            refine ⟨.again { w with current := child, remaining := ⟨units, w.remaining.odd⟩ }, rfl, ?_⟩
            apply Turned.descended child units (not_not.mp hdirectory) _ hmeets
            apply length_of_cut
            rw [hcut]

theorem lookupTurn_turned (hs : s.WellFormed caller) (hw : w.Good s) :
    ∃ t, lookupTurn q w (s.bump w.current) = .ok (s.at t, t) ∧ Turned q s w t := by
  have hlive := hs.live_of_type hw.current
  have hrefused : ∀ status, (∀ l r, w.meets q s ≠ some (.link l r)) →
      ∃ t, w.leave (s.bump w.current) status = .ok (s.at t, t) ∧ Turned q s w t := fun status h =>
    ⟨.ended (.failed status) w.log, Walk.leave_eq hlive status,
      .refused status (not_substitutes h)⟩
  cases hcut : cut backslash w.remaining.units with
  | mk component units =>
  have hmeets := w.meets_eq (q := q) (s := s) hcut
  unfold lookupTurn
  rw [hcut]
  dsimp only
  split
  · rename_i hnil
    apply hrefused
    intro l r
    rw [hmeets, hnil]
    exact not_link_of_none _ rfl l r
  · rename_i hne
    obtain ⟨hfind, hlisted⟩ := obpFindEntry_eq (q := q) hs hw.current hne
    rw [obpFindEntry_bump, hfind]
    dsimp only [bind, Except.bind]
    cases hchild : q.child s w.current component with
    | none =>
      dsimp only
      split
      · apply hrefused
        intro l r
        rw [hmeets]
        exact not_link_of_none _ hchild l r
      · rename_i hlast
        refine ⟨.ended (.leaf w.current component) w.log, rfl, .found _ ?_ ?_ ⟨?_, ?_⟩⟩
        · rw [hmeets, Paths.meet_none hchild, components_isEmpty, if_pos]
          · rfl
          · cases units with
            | none => rfl
            | some units => simp at hlast
        · intro m hm
          cases hm
          trivial
        · intro b hb
          cases hb
          exact hlive
        · intro parent name h
          cases h
          exact ⟨hw.current, hne⟩
    | some child => exact lookupChild_turned hs hw hcut hchild (hs.live (hlisted child hchild))

/-! ## A walk -/

theorem Turned.good (hs : s.WellFormed caller) (hw : w.Good s) {w' : Walk}
    (h : Turned q s w (.again w')) : w'.Good s := by
  cases h with
  | descended child rest htype _ _ => exact ⟨htype, hw.reparses, hw.log⟩
  | substituted link rest units h _ =>
    refine ⟨hs.root_type, h.reparses, ?_⟩
    rw [length_append, hw.log]
    rfl

/-- The walk goes on for fewer substitutions, or for less of the path. -/
theorem Turned.lt {w' : Walk} (h : Turned q s w (.again w')) :
    Prod.Lex (· < ·) (· < ·) (obpMaxReparses - w'.reparses, w'.remaining.units.length)
      (obpMaxReparses - w.reparses, w.remaining.units.length) := by
  cases h with
  | descended child rest _ hrest _ => exact .right _ hrest
  | substituted link rest units h _ =>
    have hlt := h.reparses
    exact .left _ _ (by dsimp only; omega)

theorem Turned.log_le (hw : w.Good s) {r : LookupResult} {log : List Substitution}
    (h : Turned q s w (.ended r log)) : log.length ≤ obpMaxReparses := by
  have hreparses := hw.reparses
  have hlog := hw.log
  cases h with
  | refused => exact hlog ▸ hreparses
  | found => exact hlog ▸ hreparses
  | broken link rest status h =>
    have hlt := h.reparses
    rw [length_append, hlog]
    exact hlt

theorem lookupLoop_ends (hs : s.WellFormed caller)
    {P : Walk → LookupResult → List Substitution → Prop}
    (hover : ∀ w r log, w.Good s → Turned q s w (.ended r log) → P w r log)
    (hagain : ∀ w w' r log, w.Good s → Turned q s w (.again w') → P w' r log → P w r log)
    (w : Walk) (hw : w.Good s) :
    ∃ enough r log, (∀ turns, enough ≤ turns →
        lookupLoop q turns w (s.bump w.current) = .ok (some (s.after r, r, log))) ∧ P w r log := by
  obtain ⟨t, hturn, ht⟩ := lookupTurn_turned (q := q) hs hw
  cases t with
  | ended r log =>
    refine ⟨1, r, log, ?_, hover w r log hw ht⟩
    intro turns hturns
    obtain ⟨turns, rfl⟩ := Nat.exists_eq_add_of_le' hturns
    rw [lookupLoop, hturn]
    rfl
  | again w' =>
    have hlt := ht.lt
    obtain ⟨enough, r, log, hloop, hP⟩ := lookupLoop_ends hs hover hagain w' (ht.good hs hw)
    refine ⟨enough + 1, r, log, ?_, hagain w w' r log hw ht hP⟩
    intro turns hturns
    obtain ⟨turns, rfl⟩ := Nat.exists_eq_add_of_le' (Nat.le_of_add_left_le hturns)
    rw [lookupLoop, hturn]
    exact hloop turns (by omega)
termination_by (obpMaxReparses - w.reparses, w.remaining.units.length)
decreasing_by exact hlt

/-! ## The start -/

def LookupRequest.walk (q : LookupRequest) (start : Body) : Walk :=
  { current := start, remaining := q.stripped }

def LookupRequest.StartsAt (q : LookupRequest) (caller : Caller) (s : ObState) (start : Body) : Prop :=
  ∃ s' referenced, startingDirectory q caller s = .ok (s', .ok (start, referenced))

theorem startingDirectory_ends (hs : s.WellFormed caller) :
    (∃ status, startingDirectory q caller s = .ok (s, .error status)) ∨
    ∃ start referenced, startingDirectory q caller s =
        .ok (if referenced then s.bump start else s, .ok (start, referenced)) ∧
      s.type start = some .directory := by
  unfold startingDirectory
  split
  · obtain ⟨status, hhandle⟩ | ⟨b, hhandle, htype⟩ := obReferenceObjectByHandle_ends hs
      q.rootDirectory directoryTraverse .directory
    · rw [hhandle]
      exact .inl ⟨status, rfl⟩
    · rw [hhandle]
      dsimp only [bind, Except.bind]
      split
      · rw [obDereferenceObject_bump (hs.live_of_type htype)]
        exact .inl ⟨_, rfl⟩
      · exact .inr ⟨b, true, rfl, htype⟩
  · split
    · exact .inl ⟨_, rfl⟩
    · exact .inr ⟨s.root, false, rfl, hs.root_type⟩

theorem LookupRequest.walk_good (hd : s.type d = some .directory) : (q.walk d).Good s :=
  ⟨hd, Nat.zero_le _, rfl⟩

theorem obpLookupName_ends (hs : s.WellFormed caller) {P : LookupResult → List Substitution → Prop}
    (hfailed : ∀ status, (∀ start, ¬ q.StartsAt caller s start) → P (.failed status) [])
    (hstart : ∀ start, q.StartsAt caller s start → s.type start = some .directory →
      q.stripped.bytes = 0 → P (.object start) [])
    (hwalk : ∀ start, q.StartsAt caller s start → s.type start = some .directory →
      q.stripped.bytes ≠ 0 →
      ∃ enough r log, (∀ turns, enough ≤ turns →
        lookupLoop q turns (q.walk start) (s.bump start) = .ok (some (s.after r, r, log))) ∧ P r log) :
    ∃ enough r log, (∀ turns, enough ≤ turns →
      obpLookupName q turns caller s = .ok (some (s.after r, r, log))) ∧ P r log := by
  unfold obpLookupName
  obtain ⟨status, hdir⟩ | ⟨start, referenced, hdir, htype⟩ := startingDirectory_ends (q := q) hs
  · rw [hdir]
    refine ⟨0, .failed status, [], fun _ _ => rfl, hfailed status ?_⟩
    rintro start ⟨s', referenced, h⟩
    rw [hdir] at h
    cases h
  · have hstarts : q.StartsAt caller s start := ⟨_, _, hdir⟩
    have hrest : ∃ enough r log, (∀ turns, enough ≤ turns →
        (if q.stripped.bytes = 0 then .ok (some (s.bump start, .object start, []))
          else lookupLoop q turns (q.walk start) (s.bump start)) =
            Except.ok (some (s.after r, r, log))) ∧ P r log := by
      split
      · rename_i hempty
        exact ⟨0, .object start, [], fun _ _ => rfl, hstart start hstarts htype hempty⟩
      · rename_i hne
        exact hwalk start hstarts htype hne
    rw [hdir]
    cases referenced with
    | true => exact hrest
    | false =>
      dsimp only [bind, Except.bind]
      rw [if_neg Bool.false_ne_true, obfReferenceObject_eq (hs.live_of_type htype)]
      exact hrest

/-! ## Names are replaced by what they stand for -/

theorem rebuild_even {target : WStr} (h : ∀ r ∈ rest, r.odd = false) :
    (rebuild target rest).1 =
      target ++ Paths.behind backslash (rest.map CountedString.units) := by
  cases rest with
  | none => exact (append_nil target).symm
  | some r =>
    unfold rebuild
    dsimp only
    split
    · rfl
    · rename_i hnil
      have hunits : r.units = [] := not_not.mp hnil
      have hbytes : r.bytes = 0 := by
        unfold CountedString.bytes
        rw [hunits, h r rfl]
        rfl
      rw [if_pos hbytes, map_some, hunits]
      rfl

theorem Walk.Substitutes.path {units : WStr}
    (hs : s.WellFormed caller) (h : w.Substitutes q s link rest) (heven : w.remaining.odd = false)
    (hunits : (rebuild (s.target link) rest).1 = backslash :: units) :
    ∃ target, (q.space s).target link = some target ∧
      units.splitOn backslash =
        target ++ components backslash (rest.map CountedString.units) := by
  have hlink : s.type link = some .symbolicLink := of_decide_eq_true (Paths.isLink_of_meet h.meets)
  rw [rebuild_even fun r hr => (h.odd r hr).trans heven] at hunits
  obtain ⟨c, tail, htarget⟩ := exists_cons_of_ne_nil (hs.target_ne_nil hlink)
  rw [htarget, cons_append] at hunits
  obtain ⟨rfl, rfl⟩ := List.cons.inj hunits
  refine ⟨tail.splitOn backslash, ?_, splitOn_append_behind ..⟩
  show (match s.target link with | [] => none | c :: units => _) = _
  rw [htarget]
  exact if_pos rfl

/-- What a name denotes. A name with nothing behind its separator denotes the start itself. -/
def LookupRequest.Denotes (q : LookupRequest) (caller : Caller) (s : ObState)
    (m : Met Body WStr) : Prop :=
  ∃ start, q.StartsAt caller s start ∧
    if q.stripped.units = [] then m = .object start
    else Paths.Denotes (q.space s) q.followFinalLink start (q.stripped.units.splitOn backslash) m

theorem lookupLoop_denotes (hs : s.WellFormed caller) (hw : w.Good s) :
    ∃ enough r log, (∀ turns, enough ≤ turns →
        lookupLoop q turns w (s.bump w.current) = .ok (some (s.after r, r, log))) ∧
      log.length ≤ obpMaxReparses ∧ r.Sound s ∧
      (w.remaining.odd = false → ∀ m ∈ r.met, Paths.Denotes (q.space s) q.followFinalLink w.current
        (w.remaining.units.splitOn backslash) m) := by
  apply lookupLoop_ends hs (P := fun w r log => log.length ≤ obpMaxReparses ∧
    r.Sound s ∧ (w.remaining.odd = false → ∀ m ∈ r.met, Paths.Denotes (q.space s) q.followFinalLink w.current
      (w.remaining.units.splitOn backslash) m)) _ _ w hw
  · intro w r log hw h
    refine ⟨h.log_le hw, ?_, ?_⟩
    · cases h with
      | refused => exact .failed
      | found _ _ _ hsound => exact hsound
      | broken => exact .failed
    · intro _ m hm
      cases h with
      | refused => cases hm
      | found _ hmeets hend _ =>
        apply Paths.Denotes.here _ (hend m hm)
        rw [mem_def.mp hm] at hmeets
        exact hmeets
      | broken => cases hm
  · intro w w' r log hw h ⟨hlog, hsound, hdenotes⟩
    refine ⟨hlog, hsound, ?_⟩
    intro heven m hm
    cases h with
    | descended child rest _ _ hmeets => exact (hdenotes heven m hm).of_meet hmeets
    | substituted link rest units h hunits =>
      obtain ⟨target, htarget, hpath⟩ := h.path hs heven hunits
      apply Paths.Denotes.link h.meets htarget
      have hrest := hdenotes rfl m hm
      rw [hpath] at hrest
      exact hrest

theorem LookupRequest.odd_stripped (q : LookupRequest) : q.stripped.odd = q.name.odd := by
  unfold LookupRequest.stripped
  split
  · rfl
  · split <;> rfl

theorem LookupRequest.StartsAt.unique {start start' : Body} (h : q.StartsAt caller s start)
    (h' : q.StartsAt caller s start') : start = start' := by
  obtain ⟨s1, referenced, h⟩ := h
  obtain ⟨s2, referenced', h'⟩ := h'
  rw [h] at h'
  cases h'
  rfl

theorem obpLookupName_denotes (hs : s.WellFormed caller) :
    ∃ enough r log, (∀ turns, enough ≤ turns →
        obpLookupName q turns caller s = .ok (some (s.after r, r, log))) ∧
      log.length ≤ obpMaxReparses ∧ r.Sound s ∧
      (q.name.odd = false → ∀ m ∈ r.met, q.Denotes caller s m) := by
  have hodd := q.odd_stripped
  apply obpLookupName_ends hs (P := fun r log =>
    log.length ≤ obpMaxReparses ∧ r.Sound s ∧
      (q.name.odd = false → ∀ m ∈ r.met, q.Denotes caller s m))
  · intro status _
    refine ⟨Nat.zero_le _, .failed, ?_⟩
    intro _ m hm
    cases hm
  · intro start hstart htype hempty
    refine ⟨Nat.zero_le _, ⟨?_, fun _ _ h => by cases h⟩, fun _ m hm => ⟨start, hstart, ?_⟩⟩
    · intro b hb
      cases hb
      exact hs.live_of_type htype
    rw [if_pos (CountedString.units_eq_nil hempty)]
    cases hm
    rfl
  · intro start hstart htype hne
    obtain ⟨enough, r, log, hloop, hlog, hsound, hdenotes⟩ :=
      lookupLoop_denotes (q := q) hs (LookupRequest.walk_good htype)
    refine ⟨enough, r, log, hloop, hlog, hsound, fun heven m hm => ⟨start, hstart, ?_⟩⟩
    rw [if_neg]
    · exact hdenotes (hodd.trans heven) m hm
    · intro hunits
      apply hne
      unfold CountedString.bytes
      rw [hunits, hodd, heven]
      rfl

/-! ## Parse objects -/

/-- One more reference, on the parse object that is returned. -/
def ObState.afterParse (s : ObState) (r : Except NtStatus (Body × Option CountedString)) : ObState :=
  match r with
  | .error _ => s
  | .ok (b, _) => s.bump b

/-- A parse object: the walk has stopped at it, or it is where the walk was to start. -/
def LookupRequest.DenotesParse (q : LookupRequest) (caller : Caller) (s : ObState) (b : Body)
    (remaining : Option CountedString) : Prop :=
  q.Denotes caller s (.stop b (components backslash (remaining.map CountedString.units))) ∨
    remaining = none ∧ q.Denotes caller s (.object b)

theorem obpCheckParse_ends (parseType : ObjectType) (hb : s.Live b)
    (remaining : Option CountedString) :
    (∃ status, obpCheckParse parseType (s.bump b) b remaining = .ok (some (s, .error status))) ∨
    obpCheckParse parseType (s.bump b) b remaining = .ok (some (s.bump b, .ok (b, remaining))) ∧
      s.type b = some parseType := by
  unfold obpCheckParse
  rw [type_bump]
  split
  · rw [obDereferenceObject_bump hb]
    exact .inl ⟨_, rfl⟩
  · rename_i htype
    exact .inr ⟨rfl, not_not.mp htype⟩

theorem obpParseResult_ends (parseType : ObjectType) {r : LookupResult}
    (hlive : ∀ b ∈ r.referenced, s.Live b) :
    (∃ status, obpParseResult parseType (s.after r) r = .ok (some (s, .error status))) ∨
    ∃ b remaining, obpParseResult parseType (s.after r) r = .ok (some (s.bump b, .ok (b, remaining))) ∧
      s.type b = some parseType ∧ (r = .parse b remaining ∨ r = .object b ∧ remaining = none) := by
  cases r with
  | failed status => exact .inl ⟨status, rfl⟩
  | object b =>
    obtain hfailed | ⟨hok, htype⟩ := obpCheckParse_ends parseType (hlive b rfl) none
    · exact .inl hfailed
    · exact .inr ⟨b, none, hok, htype, .inr ⟨rfl, rfl⟩⟩
  | parse b remaining =>
    obtain hfailed | ⟨hok, htype⟩ := obpCheckParse_ends parseType (hlive b rfl) remaining
    · exact .inl hfailed
    · exact .inr ⟨b, remaining, hok, htype, .inl rfl⟩
  | leaf parent name =>
    refine .inl ⟨statusObjectNameNotFound, ?_⟩
    show (do
      let s ← obDereferenceObject (s.bump parent) parent
      Except.ok (some (s, Except.error statusObjectNameNotFound))) = _
    rw [obDereferenceObject_bump (hlive parent rfl)]
    rfl

theorem obpLookupParseObject_denotes (hs : s.WellFormed caller) (parseType : ObjectType)
    (p : ParseRequest) :
    ∃ enough r, (∀ turns, enough ≤ turns →
        obpLookupParseObject turns caller parseType p s = .ok (some (s.afterParse r, r))) ∧
      ((∃ status, r = .error status) ∨
        ∃ name b remaining, p.objectName = some name ∧ r = .ok (b, remaining) ∧
          s.type b = some parseType ∧
          (name.odd = false → (p.lookup parseType name).DenotesParse caller s b remaining)) := by
  have hfailed : ∀ (enough : Nat) (status : NtStatus), (∀ turns, enough ≤ turns →
      obpLookupParseObject turns caller parseType p s = .ok (some (s, .error status))) →
      ∃ enough r, (∀ turns, enough ≤ turns →
        obpLookupParseObject turns caller parseType p s = .ok (some (s.afterParse r, r))) ∧
      ((∃ status, r = .error status) ∨
        ∃ name b remaining, p.objectName = some name ∧ r = .ok (b, remaining) ∧
          s.type b = some parseType ∧
          (name.odd = false → (p.lookup parseType name).DenotesParse caller s b remaining)) :=
    fun enough status h => ⟨enough, .error status, h, .inl ⟨status, rfl⟩⟩
  by_cases hprobe : ntSuccess p.probe
  · by_cases hattributes : p.hasAttributes
    · obtain hname | ⟨name, hname⟩ := p.objectName.eq_none_or_eq_some
      · refine hfailed 0 statusObjectPathSyntaxBad fun turns _ => ?_
        unfold obpLookupParseObject
        rw [if_neg (not_not.mpr hprobe), if_neg (not_not.mpr hattributes), hname]
      · obtain ⟨enough, r, log, hlookup, -, hsound, hdenotes⟩ :=
          obpLookupName_denotes (q := p.lookup parseType name) hs
        have hturns : ∀ turns, enough ≤ turns →
            obpLookupParseObject turns caller parseType p s =
              obpParseResult parseType (s.after r) r := by
          intro turns hle
          unfold obpLookupParseObject
          rw [if_neg (not_not.mpr hprobe), if_neg (not_not.mpr hattributes), hname]
          dsimp only
          rw [hlookup turns hle]
          rfl
        obtain ⟨status, hresult⟩ | ⟨b, remaining, hresult, htype, hr⟩ :=
          obpParseResult_ends parseType hsound.live
        · exact hfailed enough status fun turns hle => (hturns turns hle).trans hresult
        · refine ⟨enough, .ok (b, remaining), fun turns hle => (hturns turns hle).trans hresult,
            .inr ⟨name, b, remaining, hname, rfl, htype, fun heven => ?_⟩⟩
          obtain rfl | ⟨rfl, rfl⟩ := hr
          · exact .inl (hdenotes heven _ rfl)
          · exact .inr ⟨rfl, hdenotes heven _ rfl⟩
    · refine hfailed 0 statusInvalidParameter fun turns _ => ?_
      unfold obpLookupParseObject
      rw [if_neg (not_not.mpr hprobe), if_pos hattributes]
  · refine hfailed 0 p.probe fun turns _ => ?_
    unfold obpLookupParseObject
    rw [if_pos hprobe]

/-- A lookup ends after at most so many substitutions as the walk allows, whatever the links are; what
it finds is what the name denotes; and the namespace has one reference more, on what is returned. -/
theorem lookup_substitutes (hs : s.WellFormed caller) :
    (∀ q : LookupRequest, q.name.odd = false → ∃ enough r log,
      (∀ turns, enough ≤ turns →
        obpLookupName q turns caller s = .ok (some (s.after r, r, log))) ∧
      log.length ≤ obpMaxReparses ∧ ∀ m, r.met = some m → q.Denotes caller s m) ∧
    ∀ (parseType : ObjectType) (p : ParseRequest), (∀ name ∈ p.objectName, name.odd = false) →
      ∃ enough r, (∀ turns, enough ≤ turns →
        obpLookupParseObject turns caller parseType p s = .ok (some (s.afterParse r, r))) ∧
      ∀ b remaining, r = .ok (b, remaining) → s.type b = some parseType ∧
        ∃ name, p.objectName = some name ∧
          (p.lookup parseType name).DenotesParse caller s b remaining := by
  constructor
  · intro q heven
    obtain ⟨enough, r, log, hlookup, hlog, -, hdenotes⟩ := obpLookupName_denotes (q := q) hs
    exact ⟨enough, r, log, hlookup, hlog, hdenotes heven⟩
  · intro parseType p heven
    obtain ⟨enough, r, hlookup, hr⟩ := obpLookupParseObject_denotes hs parseType p
    refine ⟨enough, r, hlookup, ?_⟩
    intro b remaining hok
    subst hok
    obtain ⟨status, hfailed⟩ | ⟨name, b', remaining', hname, hr, htype, hdenotes⟩ := hr
    · cases hfailed
    · cases hr
      exact ⟨htype, name, hname, hdenotes (heven name hname)⟩

end

/-! ## A namespace -/

/-- A link `L` to `\D`, and the directory `D`. -/
def sampleSpace : ObState where
  objects b :=
    match b with
    | .other 0 => some
      { type := .directory
        pointerCount := 1
        permanent := true
        body := .directory [.other 1, .other 2] }
    | .other 1 => some
      { type := .symbolicLink
        pointerCount := 1
        parentDirectory := some (.other 0)
        name := [0x4C]
        body := .symbolicLink [backslash, 0x44] }
    | .other 2 => some
      { type := .directory
        pointerCount := 1
        parentDirectory := some (.other 0)
        name := [0x44]
        body := .directory [] }
    | _ => none
  root := .other 0
  tables _ := {}

def sampleCaller : Caller where
  process := 0
  pseudo _ := none

theorem sampleSpace_wellFormed : sampleSpace.WellFormed sampleCaller where
  root := ⟨_, rfl, rfl⟩
  counted b o ho := by
    unfold sampleSpace at ho
    dsimp only at ho
    split at ho <;> cases ho <;> exact Nat.one_pos
  directory b o ho htype := by
    unfold sampleSpace at ho
    dsimp only at ho
    split at ho
    · cases ho
      refine ⟨_, rfl, ?_⟩
      intro c hc
      obtain rfl | rfl := mem_pair.mp hc <;> rfl
    · cases ho
      cases htype
    · cases ho
      exact ⟨[], rfl, fun _ hc => by cases hc⟩
    · cases ho
  symbolicLink b o ho htype := by
    unfold sampleSpace at ho
    dsimp only at ho
    split at ho
    · cases ho
      cases htype
    · cases ho
      exact ⟨_, rfl, cons_ne_nil _ _⟩
    · cases ho
      cases htype
    · cases ho
  handle p entry h := by cases h
  pseudo n b h := by cases h

/-- `\L` -/
def sampleLookup : LookupRequest where
  name := ⟨[backslash, 0x4C], false⟩
  pool _ := true

example : (obpLookupName sampleLookup 2 sampleCaller sampleSpace).toOption.map
    (·.map fun outcome => outcome.2.1) = some (some (.object (.other 2))) := by
  decide

theorem lookup_substitutes_sample : ∃ enough r log,
    (∀ turns, enough ≤ turns → obpLookupName sampleLookup turns sampleCaller sampleSpace =
      .ok (some (sampleSpace.after r, r, log))) ∧
    log.length ≤ obpMaxReparses ∧
    ∀ m, r.met = some m → sampleLookup.Denotes sampleCaller sampleSpace m :=
  (lookup_substitutes sampleSpace_wellFormed).1 sampleLookup rfl

end Proskrnl.Ob
