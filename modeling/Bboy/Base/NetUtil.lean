/-
Lean model of how `HostPort` (`bboy/base/net/net_util.cc`) is parsed and printed, alone and in lists, with the part of
`SimpleAtoi` (`bboy/gbase/strings/numbers.cc`) that reads a port.

A string is the list of its bytes. `Split`, `StripWhiteSpace` and `Substitute` do what their headers say, for strings of
any length.

- `parseString_toString`: a stripped host without a colon is read back, whatever the default port is.
- `parseString_ok`: such a host is what `ParseString` accepts, and it has no byte that the text has not.
- `roundTrip_reads`: what `ParseString` accepts is read back as it is printed; so is every list that `ParseStrings` fills,
  also if it stops at an error; and a text that is refused leaves the `HostPort` as it was.
Witness: `roundTrip_reads_blank`.
-/
import Bboy.Base.OsUtil
import Bboy.Core.Split
import Mathlib.Data.List.DropRight

namespace Bboy.NetUtil

open Core OsUtil

/-! ## Model -/

structure HostPort where
  host : List UInt8
  port : UInt16
deriving DecidableEq, Repr

/-- `HostPort()` -/
def HostPort.empty : HostPort := ⟨[], 0⟩

def stripWhiteSpace (str : List UInt8) : List UInt8 := (str.dropWhile isSpace).rdropWhile isSpace

/-- `SimpleAtoi` for a `uint32`: `strtoul` on the C string, without a minus, and only white space behind the number -/
def simpleAtoi (str : List UInt8) : Option ℕ :=
  let text := (str.takeWhile (· != 0)).dropWhile isSpace
  let digits := (sign text).2.takeWhile isDigit
  if (sign text).1 = -1 then none
  else if digits = [] then none
  -- `ERANGE`
  else if 2 ^ 32 ≤ digitsValue digits then none
  else if ((sign text).2.dropWhile isDigit).dropWhile isSpace = [] then some (digitsValue digits)
  else none

/-- the bytes as characters, in the text of an error -/
def asText (str : List UInt8) : String := String.ofList (str.map fun c => Char.ofNat c.toNat)

/-- the port behind the first colon, or the default port if there is no colon -/
def parsePort (str second : List UInt8) (defaultPort : UInt16) : Option ℕ :=
  if second = [] ∧ str.count 58 = 0 then some defaultPort.toNat
  else (simpleAtoi second).filter (· ≤ 65535)

namespace HostPort

def parseString (hp : HostPort) (str : List UInt8) (defaultPort : UInt16) : Status × HostPort :=
  -- Split(str, Limit(":", 1))
  let p := splitFirst 58 str
  match parsePort str p.2 defaultPort with
  | none => (.bad ⟨.invalidArgument, BadStatus.joined "Invalid port" (asText str), -1⟩, hp)
  | some port => (.ok, ⟨stripWhiteSpace p.1, UInt16.ofNat port⟩)

/-- `$0:$1` -/
def toString (hp : HostPort) : List UInt8 := hp.host ++ 58 :: decimal hp.port.toNat

/-- the loop over the addresses, which stops at the first error -/
def parseEach (defaultPort : UInt16) : List (List UInt8) → List HostPort → Status × List HostPort
  | [], res => (.ok, res)
  | addrString :: addrStrings, res =>
    match empty.parseString addrString defaultPort with
    | (.ok, hostPort) => parseEach defaultPort addrStrings (res ++ [hostPort])
    | (.bad e, _) => (.bad e, res)

def parseStrings (commaSepAddrs : List UInt8) (defaultPort : UInt16) (res : List HostPort) : Status × List HostPort :=
  parseEach defaultPort (splitNonempty 44 commaSepAddrs) res

def toCommaSeparatedString (hostports : List HostPort) : List UInt8 := [44].intercalate (hostports.map toString)

end HostPort

/-! ## White space -/

variable {str host : List UInt8} {c : UInt8} {hp hp' : HostPort} {defaultPort : UInt16}

theorem mem_of_mem_stripWhiteSpace (h : c ∈ stripWhiteSpace str) : c ∈ str :=
  (List.dropWhile_suffix _).subset ((List.rdropWhile_prefix _ _).subset h)

theorem stripWhiteSpace_idem (str : List UInt8) : stripWhiteSpace (stripWhiteSpace str) = stripWhiteSpace str := by
  have hleft : (stripWhiteSpace str).dropWhile isSpace = stripWhiteSpace str := by
    rw [List.dropWhile_eq_self_iff]
    intro hpos
    -- the first byte of a prefix is the first byte that was not dropped
    have hfront : stripWhiteSpace str <+: str.dropWhile isSpace := List.rdropWhile_prefix _ _
    have hdrop := List.dropWhile_eq_self_iff.1 (List.dropWhile_idempotent isSpace str)
    rw [hfront.getElem hpos]
    exact hdrop (hpos.trans_le hfront.length_le)
  calc stripWhiteSpace (stripWhiteSpace str)
      = (stripWhiteSpace str).rdropWhile isSpace := by rw [stripWhiteSpace, hleft]
    _ = stripWhiteSpace str := List.rdropWhile_idempotent _ _

/-! ## Ports -/

/-- a printed number is read back if it is a `uint32` -/
theorem simpleAtoi_decimal {n : ℕ} (h : n < 2 ^ 32) : simpleAtoi (decimal n) = some n := by
  have hdigits : ∀ c ∈ decimal n, isDigit c = true := fun c hc => isDigit_of_mem_decimal hc
  have hplain : ∀ c ∈ decimal n, c ≠ 0 ∧ isSpace c = false := by
    intro c hc
    apply decimalInt_plain (i := n)
    rwa [decimalInt, if_neg (by omega), Int.natAbs_natCast]
  have hzero : (decimal n).takeWhile (· != 0) = decimal n :=
    List.takeWhile_eq_self_iff.2 fun c hc => bne_iff_ne.2 (hplain c hc).1
  have hspace : (decimal n).dropWhile isSpace = decimal n := by
    obtain ⟨c, tail, hcons⟩ := List.exists_cons_of_ne_nil (decimal_ne_nil n)
    have hc : isSpace c = false := (hplain c (hcons ▸ List.mem_cons_self)).2
    rw [hcons, List.dropWhile_cons_of_neg]
    simp [hc]
  simp only [simpleAtoi, hzero, hspace, sign_decimal, List.takeWhile_eq_self_iff.2 hdigits,
    List.dropWhile_eq_nil_iff.2 hdigits, digitsValue_decimal, if_neg (decimal_ne_nil n), List.dropWhile_nil, if_true]
  rw [if_neg (by decide), if_neg (by omega)]

theorem parsePort_decimal (str : List UInt8) (port defaultPort : UInt16) :
    parsePort str (decimal port.toNat) defaultPort = some port.toNat := by
  have hlt : port.toNat < 2 ^ 16 := port.toNat_lt
  rw [parsePort, if_neg fun h => decimal_ne_nil _ h.1, simpleAtoi_decimal (by omega), Option.filter_some, if_pos]
  simpa using Nat.le_of_lt_succ hlt

/-! ## Round trips -/

/-- what `ParseString` makes of a text: a host without a colon that cannot be stripped any further -/
structure Plain (host : List UInt8) : Prop where
  colon : 58 ∉ host
  stripped : stripWhiteSpace host = host

namespace HostPort

/-- **A plain host is read back** with its port, whatever the default port is. -/
theorem parseString_toString (h : Plain hp.host) (hp₀ : HostPort) (p : UInt16) :
    hp₀.parseString hp.toString p = (.ok, hp) := by
  rw [parseString, toString, splitFirst_append_cons h.colon]
  simp only [parsePort_decimal, h.stripped, UInt16.ofNat_toNat]

/-- what is accepted is plain, and its host has no byte that the text has not -/
theorem parseString_ok (h : hp.parseString str defaultPort = (.ok, hp')) :
    Plain hp'.host ∧ ∀ c ∈ hp'.host, c ∈ str := by
  have hhost : hp'.host = stripWhiteSpace (splitFirst 58 str).1 := by
    rw [parseString] at h
    split at h
    · cases h
    · cases h
      rfl
  have hsub : ∀ c ∈ hp'.host, c ∈ (splitFirst 58 str).1 := fun c hc => mem_of_mem_stripWhiteSpace (hhost ▸ hc)
  refine ⟨⟨fun hcolon => not_mem_splitFirst (hsub 58 hcolon), ?_⟩, ?_⟩
  · rw [hhost, stripWhiteSpace_idem]
  · intro c hc
    exact (List.takeWhile_prefix _).subset (hsub c hc)

theorem parseString_bad {e : BadStatus} (h : hp.parseString str defaultPort = (.bad e, hp')) : hp' = hp := by
  rw [parseString] at h
  split at h
  · cases h
    rfl
  · cases h

theorem not_mem_toString (h : 44 ∉ hp.host) : 44 ∉ hp.toString := by
  intro hmem
  rcases List.mem_append.1 hmem with hmem | hmem
  · exact h hmem
  · rcases List.mem_cons.1 hmem with hmem | hmem
    · exact absurd hmem (by decide)
    · exact ne_of_isDigit (isDigit_of_mem_decimal hmem) rfl rfl

/-- every element that the loop appends is plain and without a comma, if the addresses have none -/
theorem parseEach_plain {addrStrings : List (List UInt8)} {res res' : List HostPort} {s : Status}
    (hcomma : ∀ addrString ∈ addrStrings, 44 ∉ addrString) (hres : ∀ hp ∈ res, Plain hp.host ∧ 44 ∉ hp.host)
    (h : parseEach defaultPort addrStrings res = (s, res')) : ∀ hp ∈ res', Plain hp.host ∧ 44 ∉ hp.host := by
  induction addrStrings generalizing res with
  | nil =>
    cases h
    exact hres
  | cons addrString addrStrings ih =>
    rw [parseEach] at h
    split at h
    · next hostPort hparse =>
      obtain ⟨hplain, hsub⟩ := parseString_ok hparse
      apply ih (fun a ha => hcomma a (List.mem_cons_of_mem _ ha)) _ h
      intro hp hmem
      rcases List.mem_append.1 hmem with hmem | hmem
      · exact hres hp hmem
      · rw [List.mem_singleton.1 hmem]
        exact ⟨hplain, fun h44 => hcomma addrString List.mem_cons_self (hsub 44 h44)⟩
    · cases h
      exact hres

/-- the loop over printed elements appends them all -/
theorem parseEach_toString (p : UInt16) {hostports : List HostPort} (h : ∀ hp ∈ hostports, Plain hp.host)
    (res : List HostPort) : parseEach p (hostports.map toString) res = (.ok, res ++ hostports) := by
  induction hostports generalizing res with
  | nil => rw [List.map_nil, parseEach, List.append_nil]
  | cons hp hostports ih =>
    rw [List.map_cons, parseEach, parseString_toString (h hp List.mem_cons_self)]
    calc parseEach p (hostports.map toString) (res ++ [hp])
        = (.ok, res ++ [hp] ++ hostports) := ih (fun hp hmem => h hp (List.mem_cons_of_mem _ hmem)) _
      _ = (.ok, res ++ hp :: hostports) := by rw [List.append_assoc, List.singleton_append]

/-- a list of plain hosts without commas is read back -/
theorem parseStrings_toCommaSeparatedString {hostports : List HostPort}
    (h : ∀ hp ∈ hostports, Plain hp.host ∧ 44 ∉ hp.host) (p : UInt16) :
    parseStrings (toCommaSeparatedString hostports) p [] = (.ok, hostports) := by
  have hpieces : splitNonempty 44 (toCommaSeparatedString hostports) = hostports.map toString := by
    apply splitNonempty_intercalate
    intro piece hpiece
    obtain ⟨hp, hmem, rfl⟩ := List.mem_map.1 hpiece
    exact ⟨by simp [toString], not_mem_toString (h hp hmem).2⟩
  rw [parseStrings, hpieces, parseEach_toString p fun hp hmem => (h hp hmem).1]
  rfl

end HostPort

open HostPort

/-- **Round trips.** What `ParseString` accepts is read back as it is printed, with any default port. A list that
`ParseStrings` fills, to its end or to the first error, is read back too. A text that is refused changes nothing. -/
theorem roundTrip_reads :
    (∀ (hp₀ : HostPort) (str : List UInt8) (defaultPort : UInt16) (hp : HostPort),
      hp₀.parseString str defaultPort = (.ok, hp) →
        ∀ (hp₁ : HostPort) (p : UInt16), hp₁.parseString hp.toString p = (.ok, hp)) ∧
    (∀ (commaSepAddrs : List UInt8) (defaultPort : UInt16) (s : Status) (res : List HostPort),
      parseStrings commaSepAddrs defaultPort [] = (s, res) →
        ∀ p : UInt16, parseStrings (toCommaSeparatedString res) p [] = (.ok, res)) ∧
    (∀ (hp : HostPort) (str : List UInt8) (defaultPort : UInt16) (e : BadStatus) (hp' : HostPort),
      hp.parseString str defaultPort = (.bad e, hp') → hp' = hp) := by
  refine ⟨?_, ?_, ?_⟩
  · intro hp₀ str defaultPort hp h hp₁ p
    exact parseString_toString (parseString_ok h).1 hp₁ p
  · intro commaSepAddrs defaultPort s res h p
    apply parseStrings_toCommaSeparatedString
    apply parseEach_plain _ _ h
    · exact fun addrString ha => (of_mem_splitNonempty ha).2
    · exact fun hp hmem => absurd hmem List.not_mem_nil
  · intro hp str defaultPort e hp' h
    exact parseString_bad h

/-- ` a b :80 ` is accepted, so is the list of it and of `,c`, and `a:b` is refused -/
theorem roundTrip_reads_blank :
    (HostPort.empty.parseString (HostPort.toString ⟨[97, 32, 98], 80⟩) 7 = (.ok, ⟨[97, 32, 98], 80⟩)) ∧
    (parseStrings (toCommaSeparatedString [⟨[97, 32, 98], 80⟩, ⟨[99], 7⟩]) 9 [] =
      (.ok, [⟨[97, 32, 98], 80⟩, ⟨[99], 7⟩])) ∧
    (HostPort.empty.parseString [97, 58, 98] 7).2 = HostPort.empty :=
  ⟨roundTrip_reads.1 HostPort.empty [32, 97, 32, 98, 32, 58, 56, 48, 32] 7 _ (by decide) _ _,
    roundTrip_reads.2.1 [32, 97, 32, 98, 32, 58, 56, 48, 32, 44, 44, 99] 7 .ok _ (by decide) _,
    roundTrip_reads.2.2 HostPort.empty [97, 58, 98] 7 ⟨.invalidArgument, "Invalid port: a:b", -1⟩ _ (by decide)⟩

end Bboy.NetUtil
