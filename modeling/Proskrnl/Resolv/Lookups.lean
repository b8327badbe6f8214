import Proskrnl.Library.Paths
import Proskrnl.Resolv.Literals

/-!
# The hosts and services tables

The lookups of `wsresolv/resolv.c` in the files of `drivers\etc`. A file is read up to its first zero, line
by line, and a line is cut into its words.
-/

namespace Proskrnl.Resolv
open Numerals List
open Paths (cut splitOn_eq_cut length_of_cut components)

def newline : UInt8 := 0x0A

def hash : UInt8 := 0x23

def slash : UInt8 := 0x2F

def isBlank (c : UInt8) : Bool := c == 0x20 || c == 0x09

/-- `split_line`, by the room that is left for tokens. -/
def splitLine : Nat → List UInt8 → List (List UInt8)
  | 0, _ => []
  | capacity + 1, line =>
    let p := line.dropWhile isBlank
    if p = [] ∨ p.head? = some hash then []
    else
      p.takeWhile (!isBlank ·) ::
        match p.dropWhile (!isBlank ·) with
        | [] => []
        | _ :: rest => splitLine capacity rest

def tolower (c : UInt8) : UInt8 := if 0x41 ≤ c ∧ c ≤ 0x5A then c + 0x20 else c

def strieq (a b : List UInt8) : Bool := a.map tolower == b.map tolower

/-- The loop over the lines of a file. -/
def walk {σ : Type} (stop : σ → Bool) (visit : List UInt8 → σ → σ) (text : List UInt8) (s : σ) : σ :=
  if stop s then s
  else
    match _h : (cut newline text).2 with
    | none => visit (cut newline text).1 s
    | some next => walk stop visit next (visit (cut newline text).1 s)
termination_by text.length
decreasing_by exact length_of_cut _h

inductive Family
  | inet
  | inet6
deriving DecidableEq

structure Address where
  family : Family
  bytes : List UInt8
deriving DecidableEq

structure ResolvResult where
  addrs : List Address := []
  canonname : List UInt8 := []

def resolvMaxAddrs : Nat := 16

def resolvNameMax : Nat := 256

def resolvResultAdd (result : ResolvResult) (address : Address) : ResolvResult :=
  if address ∈ result.addrs then result
  else if result.addrs.length = resolvMaxAddrs then result
  else { result with addrs := result.addrs ++ [address] }

structure HostsRow where
  address : Address
  names : List (List UInt8)

def parseAddress (token : List UInt8) : Option Address :=
  match resolvParseIpv4 token, resolvParseIpv6 token with
  | some bytes, _ => some ⟨.inet, bytes⟩
  | none, .ok bytes => some ⟨.inet6, bytes⟩
  | none, .error _ => none

/-- What `for_each_hosts_row` makes of a line. -/
def hostsLine (visit : HostsRow → ResolvResult → ResolvResult) (line : List UInt8)
    (result : ResolvResult) : ResolvResult :=
  match splitLine 16 line with
  | token :: name :: names =>
    match parseAddress token with
    | some address => visit ⟨address, name :: names⟩ result
    | none => result
  | _ => result

def hostsLookupVisit (node : List UInt8) (wantV4 wantV6 : Bool) (row : HostsRow)
    (result : ResolvResult) : ResolvResult :=
  if row.address.family = .inet ∧ !wantV4 then result
  else if row.address.family = .inet6 ∧ !wantV6 then result
  else if row.names.any (strieq · node) then
    resolvResultAdd (if result.addrs = [] then
      { result with canonname := (row.names.headD []).take (resolvNameMax - 1) } else result) row.address
  else result

def hostsLookup (data node : List UInt8) (wantV4 wantV6 : Bool) : ResolvResult :=
  walk (fun _ => false) (hostsLine (hostsLookupVisit node wantV4 wantV6)) (data.takeWhile (· ≠ 0)) {}

def numericPortLoop : List UInt8 → Nat → Option Nat
  | [], value => some value
  | c :: text, value =>
    match decimalValue c with
    | none => none
    | some d => if value * 10 + d > 65535 then none else numericPortLoop text (value * 10 + d)

def numericPort (text : List UInt8) : Option Nat := if text = [] then none else numericPortLoop text 0

def tcp : List UInt8 := [0x74, 0x63, 0x70]

def udp : List UInt8 := [0x75, 0x64, 0x70]

/-- What `service_port` makes of a line. -/
def servicePortLine (service : List UInt8) (socktype : Nat) (line : List UInt8) (port : Option Nat) :
    Option Nat :=
  match splitLine 16 line with
  | name :: second :: aliases =>
    match cut slash second with
    | (_, none) => port
    | (number, some protocol) =>
      match numericPort number with
      | none => port
      | some value =>
        if socktype = 1 ∧ !strieq protocol tcp then port
        else if socktype = 2 ∧ !strieq protocol udp then port
        else if (name :: aliases).any (strieq · service) then some value
        else port
  | _ => port

def servicePort (data service : List UInt8) (socktype : Nat) : Option Nat :=
  walk Option.isSome (servicePortLine service socktype) (data.takeWhile (· ≠ 0)) none

/-! ## What a file says -/

def lines (data : List UInt8) : List (List UInt8) := (data.takeWhile (· ≠ 0)).splitOn newline

def fields (line : List UInt8) : List (List UInt8) := (line.splitOnP isBlank).filter (· ≠ [])

/-- The words of a line, sixteen at most. A word that starts with a hash starts a comment. -/
def words (line : List UInt8) : List (List UInt8) :=
  ((fields line).takeWhile (·.head? ≠ some hash)).take 16

def hostsRow (line : List UInt8) : Option HostsRow :=
  match words line with
  | token :: name :: names => (parseAddress token).map (⟨·, name :: names⟩)
  | _ => none

def HostsRow.Gives (node : List UInt8) (wantV4 wantV6 : Bool) (row : HostsRow) : Bool :=
  (match row.address.family with | .inet => wantV4 | .inet6 => wantV6) && row.names.any (strieq · node)

structure Service where
  names : List (List UInt8)
  port : Nat
  protocol : List UInt8

def serviceEntry (line : List UInt8) : Option Service :=
  match words line with
  | name :: second :: aliases =>
    match cut slash second with
    | (number, some protocol) =>
      if number = [] then none
      else ((readFrom decimalValue 10 0 number).filter (· ≤ 65535)).map (⟨name :: aliases, ·, protocol⟩)
    | _ => none
  | _ => none

def Service.Gives (service : List UInt8) (socktype : Nat) (entry : Service) : Bool :=
  (socktype ≠ 1 ∨ strieq entry.protocol tcp) && (socktype ≠ 2 ∨ strieq entry.protocol udp) &&
    entry.names.any (strieq · service)

/-! ## The words of a line -/

section
variable {c : UInt8} {line t rest : List UInt8} {capacity : Nat}

theorem fields_append (hc : isBlank c = true) : fields (t ++ c :: rest) = fields t ++ fields rest := by
  rw [fields, splitOnP_append_cons t rest hc, filter_append]
  rfl

theorem fields_token (ht : t ≠ []) (h : ∀ c ∈ t, isBlank c = false) : fields t = [t] := by
  rw [fields, splitOnP_eq_singleton h]
  exact filter_cons_of_pos (decide_eq_true ht)

theorem fields_dropWhile (line : List UInt8) : fields (line.dropWhile isBlank) = fields line := by
  induction line with
  | nil => rfl
  | cons c line ih =>
    rw [dropWhile_cons]
    split
    · rename_i hc
      exact ih.trans (fields_append (t := []) hc).symm
    · rfl

theorem fields_cons (hc : isBlank c = false) :
    fields (c :: line) = (c :: line).takeWhile (!isBlank ·) ::
      match (c :: line).dropWhile (!isBlank ·) with
      | [] => []
      | _ :: rest => fields rest := by
  have htoken : fields ((c :: line).takeWhile (!isBlank ·)) = [(c :: line).takeWhile (!isBlank ·)] := by
    refine fields_token ?_ fun x hx => by simpa using mem_takeWhile_imp hx
    rw [takeWhile_cons, hc]
    exact cons_ne_nil _ _
  conv_lhs => rw [← takeWhile_append_dropWhile (p := (!isBlank ·)) (l := c :: line)]
  split
  · rename_i hnil
    rw [hnil, append_nil, htoken]
  · rename_i b rest hrest
    have hb := head?_dropWhile_not (!isBlank ·) (c :: line)
    rw [hrest] at hb
    rw [hrest, fields_append (by simpa using hb), htoken]
    rfl

theorem splitLine_eq :
    splitLine capacity line = ((fields line).takeWhile (·.head? ≠ some hash)).take capacity := by
  induction capacity generalizing line with
  | zero => rfl
  | succ capacity ih =>
    rw [splitLine, ← fields_dropWhile line]
    have hblank := head?_dropWhile_not isBlank line
    cases hp : line.dropWhile isBlank with
    | nil => rfl
    | cons c p =>
      rw [hp] at hblank
      obtain ⟨t, ht⟩ : ∃ t, (c :: p).takeWhile (!isBlank ·) = c :: t :=
        ⟨_, takeWhile_cons_of_pos (congrArg not hblank)⟩
      rw [fields_cons hblank, ht, takeWhile_cons]
      by_cases hc : c = hash
      · rw [if_pos (.inr (congrArg some hc)), if_neg (by simpa using hc)]
        rfl
      · rw [if_neg (by simpa using hc), if_pos (by simpa using hc), take_succ_cons]
        congr 1
        split
        · exact take_nil.symm
        · exact ih

theorem splitLine_words : splitLine 16 line = words line := splitLine_eq

end

/-! ## The walk over the lines -/

section
variable {σ : Type} {stop : σ → Bool} {visit : List UInt8 → σ → σ} {s : σ}

theorem foldl_stopped (h : stop s = true) (l : List (List UInt8)) :
    l.foldl (fun s line => if stop s then s else visit line s) s = s := by
  induction l with
  | nil => rfl
  | cons line l ih => rwa [foldl_cons, if_pos h]

theorem walk_stopped {text : List UInt8} (h : stop s = true) : walk stop visit text s = s := by
  rw [walk, if_pos h]

theorem walk_last {text : List UInt8} (h : ¬ stop s = true) (hcut : (cut newline text).2 = none) :
    walk stop visit text s = visit (cut newline text).1 s := by
  rw [walk, if_neg h]
  split
  · rfl
  · rename_i heq
    cases hcut.symm.trans heq

theorem walk_next {text next : List UInt8} (h : ¬ stop s = true)
    (hcut : (cut newline text).2 = some next) :
    walk stop visit text s = walk stop visit next (visit (cut newline text).1 s) := by
  conv_lhs => rw [walk, if_neg h]
  split
  · rename_i heq
    cases hcut.symm.trans heq
  · rename_i heq
    cases hcut.symm.trans heq
    rfl

theorem walk_eq (text : List UInt8) : walk stop visit text s =
    (text.splitOn newline).foldl (fun s line => if stop s then s else visit line s) s := by
  induction text, s using walk.induct stop visit with
  | case1 text s hstop => rw [walk_stopped hstop, foldl_stopped hstop]
  | case2 text s hstop hcut =>
    rw [walk_last hstop hcut, splitOn_eq_cut, foldl_cons, if_neg hstop, hcut]
    rfl
  | case3 text s hstop next hcut ih =>
    rw [walk_next hstop hcut, splitOn_eq_cut, foldl_cons, if_neg hstop, hcut]
    exact ih

end

/-! ## The lookups -/

section
variable {result : ResolvResult} {l : List Address} {address : Address}
  (h : result.addrs = l.eraseDups.take resolvMaxAddrs)
include h

theorem addrs_add :
    (resolvResultAdd result address).addrs = (l ++ [address]).eraseDups.take resolvMaxAddrs := by
  rw [eraseDups_append, resolvResultAdd]
  by_cases hroom : l.eraseDups.length < resolvMaxAddrs
  · rw [take_of_length_le hroom.le] at h
    by_cases hmem : address ∈ l
    · rw [if_pos (h ▸ mem_eraseDups.mpr hmem), h]
      simp [removeAll, hmem, take_of_length_le hroom.le]
    · rw [if_neg (h ▸ mt mem_eraseDups.mp hmem), if_neg (h ▸ hroom.ne), h]
      simp [removeAll, hmem, eraseDups_cons]
      omega
  · have hfull : result.addrs.length = resolvMaxAddrs := by
      rw [h, length_take]
      omega
    rw [if_pos hfull, ite_self, h, take_append_of_le_length (by omega)]

theorem addrs_visit {node : List UInt8} {wantV4 wantV6 : Bool} {row : HostsRow} :
    (hostsLookupVisit node wantV4 wantV6 row result).addrs = (l ++
      if row.Gives node wantV4 wantV6 then [row.address] else []).eraseDups.take resolvMaxAddrs := by
  have hskip : result.addrs = (l ++ []).eraseDups.take resolvMaxAddrs := by rw [append_nil, h]
  have hnamed (named : Bool) : (if named then
      resolvResultAdd (if result.addrs = [] then { result with
        canonname := (row.names.headD []).take (resolvNameMax - 1) } else result) row.address
      else result).addrs = (l ++ if named then [row.address] else []).eraseDups.take resolvMaxAddrs := by
    cases named with
    | false => exact hskip
    | true => exact addrs_add (by split <;> exact h)
  rw [hostsLookupVisit, HostsRow.Gives]
  cases row.address.family with
  | inet =>
    cases wantV4 with
    | false => exact hskip
    | true => exact hnamed _
  | inet6 =>
    cases wantV6 with
    | false => exact hskip
    | true => exact hnamed _

theorem addrs_hostsLine {node line : List UInt8} {wantV4 wantV6 : Bool} :
    (hostsLine (hostsLookupVisit node wantV4 wantV6) line result).addrs = (l ++
      (((hostsRow line).toList.filter (·.Gives node wantV4 wantV6)).map (·.address))).eraseDups.take
        resolvMaxAddrs := by
  have hskip : result.addrs = (l ++ []).eraseDups.take resolvMaxAddrs := by rw [append_nil, h]
  rw [hostsLine, splitLine_words, hostsRow]
  rcases words line with _ | ⟨token, _ | ⟨name, names⟩⟩
  · exact hskip
  · exact hskip
  · simp only
    cases parseAddress token with
    | none => exact hskip
    | some address =>
      refine (addrs_visit h).trans ?_
      cases hgives : HostsRow.Gives node wantV4 wantV6 ⟨address, name :: names⟩ <;> simp [hgives]

end

theorem numericPortLoop_eq {text : List UInt8} {value : Nat} (h : value ≤ 65535) :
    numericPortLoop text value = (readFrom decimalValue 10 value text).filter (· ≤ 65535) := by
  induction text generalizing value with
  | nil => exact (Option.filter_some_pos (by simpa using h)).symm
  | cons c text ih =>
    rw [numericPortLoop, readFrom]
    cases decimalValue c with
    | none => rfl
    | some d =>
      simp only [Option.bind_some]
      split
      · refine (Option.filter_eq_none_iff.mpr fun v hv => ?_).symm
        have := le_read (by decide) hv
        simp
        omega
      · exact ih (by omega)

theorem servicePortLine_eq {service line : List UInt8} {socktype : Nat} :
    servicePortLine service socktype line none =
      ((serviceEntry line).filter (·.Gives service socktype)).map (·.port) := by
  rw [servicePortLine, splitLine_words, serviceEntry]
  rcases words line with _ | ⟨name, _ | ⟨second, aliases⟩⟩
  · rfl
  · rfl
  simp only
  rcases cut slash second with ⟨number, _ | protocol⟩
  · rfl
  simp only [numericPort]
  by_cases hnumber : number = []
  · rw [if_pos hnumber, if_pos hnumber]
    rfl
  rw [if_neg hnumber, if_neg hnumber, numericPortLoop_eq (by decide)]
  cases (readFrom decimalValue 10 0 number).filter (· ≤ 65535) with
  | none => rfl
  | some value =>
    simp only [Option.map_some, Option.filter_some, Service.Gives]
    grind

theorem hostsLookup_addrs (data node : List UInt8) (wantV4 wantV6 : Bool) :
    (hostsLookup data node wantV4 wantV6).addrs =
      ((((lines data).filterMap hostsRow).filter (·.Gives node wantV4 wantV6)).map (·.address)).eraseDups.take
        resolvMaxAddrs := by
  rw [hostsLookup, walk_eq, ← lines]
  induction lines data using reverseRecOn with
  | nil => rfl
  | append_singleton l line ih =>
    rw [foldl_append, filterMap_append, filter_append, map_append]
    refine (addrs_hostsLine ih).trans ?_
    rw [filterMap_cons, filterMap_nil]
    cases hostsRow line <;> rfl

theorem servicePort_eq (data service : List UInt8) (socktype : Nat) : servicePort data service socktype =
    (((lines data).filterMap serviceEntry).find? (·.Gives service socktype)).map (·.port) := by
  rw [servicePort, walk_eq, ← lines]
  induction lines data with
  | nil => rfl
  | cons line l ih =>
    rw [foldl_cons, if_neg (by exact Bool.false_ne_true), servicePortLine_eq, filterMap_cons]
    cases serviceEntry line with
    | none => exact ih
    | some entry =>
      rw [find?_cons]
      cases hgives : entry.Gives service socktype with
      | false => simpa [Option.filter, hgives] using ih
      | true =>
        rw [Option.filter_some_pos hgives]
        exact foldl_stopped rfl l

end Proskrnl.Resolv
