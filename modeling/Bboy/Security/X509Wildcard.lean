/-
Lean model of the comparison of names in the host name check of a certificate (`bboy/security/x509_check_host.{h,cc}`):
wildcard patterns, subdomains and case.

- `valid_star_iff`: the scan of `valid_star` accepts exactly the patterns of at least three labels whose first one has a
  star at its start or at its end, and is not an IDNA label.
- `equal_wildcard_iff`: what a pattern matches. A star stands for letters, digits and hyphens, so for a part of one label;
  only a star that is a whole label may be told to span several.
- `equal_wildcard_count`: without that flag the subject has as many labels as the pattern.
Witness: `equal_wildcard_count_www`.
-/
import Mathlib.Data.List.TakeWhile
import Mathlib.Tactic

namespace Bboy.X509CheckHost

/-! ## Flags -/

abbrev Flags := BitVec 32

def X509_CHECK_FLAG_ALWAYS_CHECK_SUBJECT : Flags := 0x1

def X509_CHECK_FLAG_NO_WILDCARDS : Flags := 0x2

def X509_CHECK_FLAG_NO_PARTIAL_WILDCARDS : Flags := 0x4

def X509_CHECK_FLAG_MULTI_LABEL_WILDCARDS : Flags := 0x8

def X509_CHECK_FLAG_SINGLE_LABEL_SUBDOMAINS : Flags := 0x10

def X509_CHECK_FLAG_NEVER_CHECK_SUBJECT : Flags := 0x20

def X509_CHECK_FLAG_DOT_SUBDOMAINS : Flags := 0x8000

def has (flags flag : Flags) : Bool := flags &&& flag ≠ 0

/-! ## Characters -/

def dot : UInt8 := '.'.toUInt8

def star : UInt8 := '*'.toUInt8

def hyphen : UInt8 := '-'.toUInt8

def isAlnum (c : UInt8) : Bool :=
  ('a'.toUInt8 ≤ c && c ≤ 'z'.toUInt8) || ('A'.toUInt8 ≤ c && c ≤ 'Z'.toUInt8) || ('0'.toUInt8 ≤ c && c ≤ '9'.toUInt8)

def toLower (c : UInt8) : UInt8 := if 'A'.toUInt8 ≤ c ∧ c ≤ 'Z'.toUInt8 then (c - 'A'.toUInt8) + 'a'.toUInt8 else c

def xn : List UInt8 := ['x'.toUInt8, 'n'.toUInt8, hyphen, hyphen]

/-- at least four characters are left, and `strncasecmp` of the first four with `xn--` gives 0 -/
def startsXn (l : List UInt8) : Bool := 4 ≤ l.length && (l.take 4).map toLower = xn

/-! ## Comparisons -/

variable (flags : Flags)

def skipLoop (subject_len : ℕ) : List UInt8 → List UInt8
  | [] => []
  | c :: pattern =>
    if subject_len < (c :: pattern).length ∧ c ≠ 0 then
      if has flags X509_CHECK_FLAG_SINGLE_LABEL_SUBDOMAINS && c = dot then c :: pattern
      else skipLoop subject_len pattern
    else c :: pattern

def skip_prefix (pattern : List UInt8) (subject_len : ℕ) : List UInt8 :=
  if has flags X509_CHECK_FLAG_DOT_SUBDOMAINS = false then pattern
  else
    let rest := skipLoop flags subject_len pattern
    -- skip if entire prefix acceptable
    if rest.length = subject_len then rest else pattern

/-- the loop of `equal_nocase`, over names of the same length -/
def nocaseLoop : List UInt8 → List UInt8 → Bool
  | l :: pattern, r :: subject =>
    if l = 0 then false
    else if l ≠ r ∧ toLower l ≠ toLower r then false
    else nocaseLoop pattern subject
  | _, _ => true

def equal_nocase (pattern subject : List UInt8) : Bool :=
  let pattern := skip_prefix flags pattern subject.length
  if pattern.length ≠ subject.length then false else nocaseLoop pattern subject

def equal_case (pattern subject : List UInt8) : Bool :=
  let pattern := skip_prefix flags pattern subject.length
  if pattern.length ≠ subject.length then false else pattern = subject

/-- the search for the last `@`, below position `i` -/
def lastAt (a b : List UInt8) : ℕ → Option ℕ
  | 0 => none
  | i + 1 => if a[i]? = some '@'.toUInt8 ∨ b[i]? = some '@'.toUInt8 then some i else lastAt a b i

def equal_email (a b : List UInt8) : Bool :=
  if a.length ≠ b.length then false
  else
    match lastAt a b a.length with
    | none => equal_case 0 a b
    | some i =>
      if !equal_nocase 0 (a.drop i) (b.drop i) then false
      else
        let i := if i = 0 then a.length else i
        equal_case 0 (a.take i) (b.take i)

/-- a character that the wildcard may stand for -/
def permitted (allow_multi : Bool) (c : UInt8) : Bool := isAlnum c || c = hyphen || (allow_multi && c = dot)

def wildcard_match (pre suffix subject : List UInt8) : Bool :=
  if subject.length < pre.length + suffix.length then false
  else if !equal_nocase flags pre (subject.take pre.length) then false
  else
    let wildcard := (subject.drop pre.length).take (subject.length - pre.length - suffix.length)
    if !equal_nocase flags (subject.drop (subject.length - suffix.length)) suffix then false
    else
      -- the wildcard makes up the entire first label
      let whole : Bool := pre.length = 0 && suffix.head? = some dot
      if whole && wildcard.isEmpty then false
      else if !whole && startsXn subject then false
      else if wildcard = [star] then true
      else wildcard.all (permitted (whole && has flags X509_CHECK_FLAG_MULTI_LABEL_WILDCARDS))

/-! ## The scan for the star -/

/-- `star` and `dots`, and the bits of `state` -/
structure Scan where
  star : Option ℕ
  labelStart : Bool
  labelHyphen : Bool
  labelIdna : Bool
  dots : ℕ
  deriving DecidableEq, Repr

/-- the character `c` at position `i`, with what is behind it -/
def scanStep (i : ℕ) (c : UInt8) (after : List UInt8) (s : Scan) : Option Scan :=
  if c = star then
    let atstart := s.labelStart
    let atend := after.head?.all (· = dot)
    if s.star.isSome || s.labelIdna || s.dots ≠ 0 then none
    else if has flags X509_CHECK_FLAG_NO_PARTIAL_WILDCARDS && (!atstart || !atend) then none
    else if !atstart && !atend then none
    else some { s with star := some i, labelStart := false }
  else if isAlnum c then
    some { s with
      labelIdna := s.labelIdna || (s.labelStart && startsXn (c :: after)), labelHyphen := false, labelStart := false }
  else if c = dot then
    if s.labelHyphen || s.labelStart then none
    else some ⟨s.star, true, false, false, s.dots + 1⟩
  else if c = hyphen then
    if s.labelStart then none else some { s with labelHyphen := true }
  else none

def scan : ℕ → List UInt8 → Scan → Option Scan
  | _, [], s => some s
  | i, c :: after, s => (scanStep flags i c after s).bind (scan (i + 1) after)

/-- the checks behind the loop -/
def Scan.finish (s : Scan) : Option ℕ := if s.labelStart || s.labelHyphen || s.dots < 2 then none else s.star

/-- the position of the star -/
def valid_star (p : List UInt8) : Option ℕ := (scan flags 0 p ⟨none, true, false, false, 0⟩).bind Scan.finish

def equal_wildcard (pattern subject : List UInt8) : Bool :=
  let found := if 1 < subject.length ∧ subject.head? = some dot then none else valid_star flags pattern
  match found with
  | none => equal_nocase flags pattern subject
  | some i => wildcard_match flags (pattern.take i) (pattern.drop (i + 1)) subject

/-! ## What the scan accepts -/

def labelChar (c : UInt8) : Bool := isAlnum c || c = hyphen

/-- the rest of a label is well formed, behind a part that is empty (`start`) or ends in a hyphen (`hyph`) -/
structure Rest (start hyph : Bool) (l : List UInt8) : Prop where
  chars : ∀ c ∈ l, labelChar c = true
  first : start = true → l ≠ [] ∧ l.head? ≠ some hyphen
  last : l.getLast? ≠ some hyphen
  empty : l = [] → hyph = false

/-- letters, digits and hyphens, with no hyphen at either end -/
abbrev Label (l : List UInt8) : Prop := Rest true false l

/-- labels behind a first one -/
def dotted (labels : List (List UInt8)) : List UInt8 := labels.flatMap (dot :: ·)

/-- `pre`, a star and `post` are a first label with a legal wildcard, from a state of the scan -/
structure Starred (flags : Flags) (s : Scan) (pre post : List UInt8) : Prop where
  chars : ∀ c ∈ pre, labelChar c = true
  first : s.labelStart = true → pre.head? ≠ some hyphen
  idna : s.labelIdna = false ∧ (s.labelStart = true → startsXn pre = false)
  edge : (s.labelStart = true ∧ pre = []) ∨ post = []
  whole : has flags X509_CHECK_FLAG_NO_PARTIAL_WILDCARDS = true → (s.labelStart = true ∧ pre = []) ∧ post = []
  rest : Rest false (if pre = [] then s.labelHyphen else pre.getLast? = some hyphen) post

variable {flags} {s t : Scan} {c : UInt8} {i k : ℕ} {l p after : List UInt8}

theorem isAlnum_ne (h : isAlnum c = true) : c ≠ star ∧ c ≠ dot ∧ c ≠ hyphen ∧ c ≠ 0 := by
  refine ⟨?_, ?_, ?_, ?_⟩ <;>
  · rintro rfl
    revert h
    decide

theorem labelChar_iff : labelChar c = true ↔ isAlnum c = true ∨ c = hyphen := by simp [labelChar]

theorem dotted_cons (l : List UInt8) (labels : List (List UInt8)) : dotted (l :: labels) = dot :: (l ++ dotted labels) := rfl

/-- what a character does to the scan when it may not be a star -/
inductive Scans (s : Scan) (c : UInt8) (after : List UInt8) : Scan → Prop
  | alnum (h : isAlnum c = true) :
    Scans s c after ⟨s.star, false, false, s.labelIdna || (s.labelStart && startsXn (c :: after)), s.dots⟩
  | dot (h : c = dot) (hhyphen : s.labelHyphen = false) (hstart : s.labelStart = false) :
    Scans s c after ⟨s.star, true, false, false, s.dots + 1⟩
  | hyphen (h : c = hyphen) (hstart : s.labelStart = false) :
    Scans s c after ⟨s.star, false, true, s.labelIdna, s.dots⟩

theorem scanStep_eq_some (hc : c ≠ star) : scanStep flags i c after s = some t ↔ Scans s c after t := by
  unfold scanStep
  rw [if_neg hc]
  constructor
  · intro h
    split_ifs at h with halnum hdot hbad hhyphen hstart
    · cases h
      exact Scans.alnum halnum
    · cases h
      simp only [Bool.or_eq_true, not_or, Bool.not_eq_true] at hbad
      exact Scans.dot hdot hbad.1 hbad.2
    · cases h
      simp only [Bool.not_eq_true] at hstart
      have hs : s.labelStart = false := hstart
      rw [hs]
      exact Scans.hyphen hhyphen hs
  · rintro (halnum | ⟨rfl, hhyphen, hstart⟩ | ⟨rfl, hstart⟩)
    · rw [if_pos halnum]
    · rw [if_neg (by decide), if_pos rfl, hhyphen, hstart]
      rfl
    · rw [if_neg (by decide), if_neg (by decide), if_pos rfl, hstart]
      rfl

theorem rest_nil {start hyph : Bool} : Rest start hyph [] ↔ start = false ∧ hyph = false := by
  constructor
  · intro h
    exact ⟨Bool.eq_false_iff.2 fun hs => (h.first hs).1 rfl, h.empty rfl⟩
  · rintro ⟨rfl, rfl⟩
    exact ⟨by simp, by simp, by simp, fun _ => rfl⟩

theorem rest_cons {start hyph : Bool} :
    Rest start hyph (c :: l) ↔ labelChar c = true ∧ (start = true → c ≠ hyphen) ∧ Rest false (c = hyphen) l := by
  constructor
  · intro h
    have hlast := h.last
    rw [List.getLast?_cons] at hlast
    refine ⟨h.chars c List.mem_cons_self, fun hs hc => (h.first hs).2 (by rw [List.head?_cons, hc]), ?_⟩
    refine ⟨fun d hd => h.chars d (List.mem_cons_of_mem c hd), nofun, fun hl => hlast ?_, ?_⟩
    · rw [hl]
      rfl
    · rintro rfl
      exact decide_eq_false fun hc => hlast (congrArg some hc)
  · rintro ⟨hc, hfirst, hrest⟩
    refine ⟨?_, fun hs => ⟨List.cons_ne_nil c l, fun h => hfirst hs (Option.some.inj h)⟩, ?_, nofun⟩
    · intro d hd
      rcases List.mem_cons.1 hd with rfl | hd
      · exact hc
      · exact hrest.chars d hd
    · rw [List.getLast?_cons]
      cases l with
      | nil => exact fun h => of_decide_eq_false (hrest.empty rfl) (Option.some.inj h)
      | cons d l => simpa [List.getLast?_cons] using hrest.last

/-- a text of labels begins with a dot, or inside its first label -/
theorem cons_eq_dotted {labels : List (List UInt8)} :
    c :: after = l ++ dotted labels ↔
      (l = [] ∧ c = dot ∧ ∃ l' labels', labels = l' :: labels' ∧ after = l' ++ dotted labels') ∨
        ∃ l', l = c :: l' ∧ after = l' ++ dotted labels := by
  constructor
  · intro h
    cases l with
    | nil =>
      left
      cases labels with
      | nil => cases h
      | cons l' labels' =>
        rw [dotted_cons, List.nil_append, List.cons.injEq] at h
        exact ⟨rfl, h.1, l', labels', rfl, h.2⟩
    | cons d l' =>
      right
      rw [List.cons_append, List.cons.injEq] at h
      exact ⟨l', by rw [h.1], h.2⟩
  · rintro (⟨rfl, rfl, l', labels', rfl, rfl⟩ | ⟨l', rfl, rfl⟩)
    · rw [dotted_cons, List.nil_append]
    · rfl

theorem scan_cons {f : Scan → Option ℕ} : ((scan flags i (c :: after) s).bind f = some k) ↔
    ∃ t, scanStep flags i c after s = some t ∧ (scan flags (i + 1) after t).bind f = some k := by
  rw [scan, Option.bind_assoc, Option.bind_eq_some_iff]

theorem labelChar_star : labelChar star = false := by decide

theorem labelChar_dot : labelChar dot = false := by decide

theorem Scans.fixed (h : Scans s c after t) (hs : s.dots ≠ 0 ∨ s.star.isSome = true) :
    t.dots ≠ 0 ∨ t.star.isSome = true := by
  cases h with
  | dot => exact Or.inl (Nat.succ_ne_zero _)
  | _ => exact hs

/-- **The scan behind the star**, or behind the first label: the rest is a rest of a label, and labels. -/
theorem scan_fixed (hs : s.dots ≠ 0 ∨ s.star.isSome = true) :
    (scan flags i p s).bind Scan.finish = some k ↔
      s.star = some k ∧ ∃ l labels, p = l ++ dotted labels ∧ Rest s.labelStart s.labelHyphen l ∧
        (∀ x ∈ labels, Label x) ∧ 2 ≤ s.dots + labels.length := by
  induction p generalizing i s with
  | nil =>
    rw [scan, Option.bind_some, Scan.finish]
    constructor
    · intro h
      split_ifs at h with hbad
      simp only [Bool.or_eq_true, decide_eq_true_eq, not_or, Bool.not_eq_true, not_lt] at hbad
      exact ⟨h, [], [], rfl, rest_nil.2 hbad.1, by simp, hbad.2⟩
    · rintro ⟨hstar, l, labels, hp, hrest, -, hdots⟩
      obtain ⟨rfl, hlabels⟩ := List.append_eq_nil_iff.1 hp.symm
      have hnil : labels = [] := by
        cases labels with
        | nil => rfl
        | cons => cases hlabels
      subst hnil
      obtain ⟨hstart, hhyphen⟩ := rest_nil.1 hrest
      have htwo : ¬ s.dots < 2 := not_lt.2 hdots
      rw [hstart, hhyphen, decide_eq_false htwo, hstar]
      rfl
  | cons c after ih =>
    rw [scan_cons]
    by_cases hc : c = star
    · subst hc
      have hnone : scanStep flags i star after s = none := by
        rw [scanStep, if_pos rfl]
        refine if_pos ?_
        rcases hs with hdots | hstar
        · simp [hdots]
        · simp [hstar]
      simp only [hnone, reduceCtorEq, false_and, exists_false, false_iff]
      rintro ⟨-, l, labels, hp, hrest, -⟩
      rcases cons_eq_dotted.1 hp with ⟨-, hdot, -⟩ | ⟨l', rfl, -⟩
      · exact absurd hdot (by decide)
      · exact absurd (rest_cons.1 hrest).1 (by simp [labelChar_star])
    · constructor
      · rintro ⟨t, ht, hrun⟩
        have hstep := (scanStep_eq_some hc).1 ht
        obtain ⟨hstar, l, labels, rfl, hrest, hlabels, hdots⟩ := (ih (hstep.fixed hs)).1 hrun
        cases hstep with
        | alnum halnum =>
          have hne : c ≠ hyphen := (isAlnum_ne halnum).2.2.1
          exact ⟨hstar, c :: l, labels, rfl, rest_cons.2 ⟨labelChar_iff.2 (Or.inl halnum), fun _ => hne, by
            rwa [decide_eq_false hne]⟩, hlabels, hdots⟩
        | dot hdot hhyphen hstart =>
          refine ⟨hstar, [], l :: labels, by rw [hdot, dotted_cons]; rfl, rest_nil.2 ⟨hstart, hhyphen⟩, ?_, ?_⟩
          · exact List.forall_mem_cons.2 ⟨hrest, hlabels⟩
          · rw [List.length_cons]
            dsimp only at hdots
            omega
        | hyphen hhyphen hstart =>
          exact ⟨hstar, c :: l, labels, rfl, rest_cons.2 ⟨labelChar_iff.2 (Or.inr hhyphen), by simp [hstart], by
            rwa [decide_eq_true hhyphen]⟩, hlabels, hdots⟩
      · rintro ⟨hstar, l, labels, hp, hrest, hlabels, hdots⟩
        rcases cons_eq_dotted.1 hp with ⟨rfl, hdot, l', labels', rfl, rfl⟩ | ⟨l', rfl, rfl⟩
        · obtain ⟨hstart, hhyphen⟩ := rest_nil.1 hrest
          obtain ⟨hl', hlabels'⟩ := List.forall_mem_cons.1 hlabels
          have hstep : Scans s c (l' ++ dotted labels') _ := Scans.dot hdot hhyphen hstart
          refine ⟨_, (scanStep_eq_some hc).2 hstep, (ih (hstep.fixed hs)).2 ⟨hstar, l', labels', rfl, hl', hlabels', ?_⟩⟩
          rw [List.length_cons] at hdots
          dsimp only
          omega
        · obtain ⟨hchar, hfirst, hrest'⟩ := rest_cons.1 hrest
          rcases labelChar_iff.1 hchar with halnum | hhyphen
          · rw [decide_eq_false (isAlnum_ne halnum).2.2.1] at hrest'
            have hstep : Scans s c (l' ++ dotted labels) _ := Scans.alnum halnum
            exact ⟨_, (scanStep_eq_some hc).2 hstep,
              (ih (hstep.fixed hs)).2 ⟨hstar, l', labels, rfl, hrest', hlabels, hdots⟩⟩
          · rw [decide_eq_true hhyphen] at hrest'
            have hstart : s.labelStart = false := Bool.eq_false_iff.2 fun h => hfirst h hhyphen
            have hstep : Scans s c (l' ++ dotted labels) _ := Scans.hyphen hhyphen hstart
            exact ⟨_, (scanStep_eq_some hc).2 hstep,
              (ih (hstep.fixed hs)).2 ⟨hstar, l', labels, rfl, hrest', hlabels, hdots⟩⟩

/-- a star among the first four characters is not in `xn--` -/
theorem startsXn_append (pre rest : List UInt8) : startsXn (pre ++ star :: rest) = startsXn pre := by
  unfold startsXn
  by_cases hlen : 4 ≤ pre.length
  · rw [List.take_append_of_le_length hlen, decide_eq_true hlen,
      decide_eq_true (hlen.trans (by simp : pre.length ≤ (pre ++ star :: rest).length))]
  · have hmem : star ∈ (pre ++ star :: rest).take 4 := by
      rw [List.take_append, List.mem_append]
      right
      rw [List.take_cons (by omega)]
      exact List.mem_cons_self
    have hne : ((pre ++ star :: rest).take 4).map toLower ≠ xn := by
      intro heq
      have hxn : toLower star ∈ xn := heq ▸ List.mem_map_of_mem hmem
      exact absurd hxn (by decide)
    rw [decide_eq_false hlen, decide_eq_false hne, Bool.and_false, Bool.false_and]

/-- a letter or a digit in front of the star -/
theorem starred_alnum {pre post rest : List UInt8} (h : isAlnum c = true) :
    Starred flags s (c :: pre) post ↔
      Starred flags ⟨s.star, false, false, s.labelIdna || (s.labelStart && startsXn (c :: (pre ++ star :: rest))), s.dots⟩
        pre post := by
  have hne : c ≠ hyphen := (isAlnum_ne h).2.2.1
  have hxn : startsXn (c :: (pre ++ star :: rest)) = startsXn (c :: pre) := startsXn_append (c :: pre) rest
  have hlast : (decide ((c :: pre).getLast? = some hyphen)) =
      if pre = [] then false else decide (pre.getLast? = some hyphen) := by
    cases pre with
    | nil => simp [hne]
    | cons d pre => simp [List.getLast?_cons]
  rw [hxn]
  constructor
  · intro hs
    have hrest := hs.rest
    rw [if_neg (List.cons_ne_nil c pre), hlast] at hrest
    refine ⟨fun d hd => hs.chars d (List.mem_cons_of_mem c hd), nofun, ⟨?_, nofun⟩, ?_, ?_, hrest⟩
    · cases hstart : s.labelStart with
      | false => simp [hs.idna.1]
      | true => simp [hs.idna.1, hs.idna.2 hstart]
    · exact Or.inr (hs.edge.resolve_left fun h => List.cons_ne_nil c pre h.2)
    · exact fun hw => absurd (hs.whole hw).1.2 (List.cons_ne_nil c pre)
  · intro hs
    have hidna := hs.idna.1
    simp only [Bool.or_eq_false_iff, Bool.and_eq_false_iff] at hidna
    refine ⟨?_, fun _ h => hne (Option.some.inj h), ⟨hidna.1, fun hstart => ?_⟩, ?_, ?_, ?_⟩
    · exact List.forall_mem_cons.2 ⟨labelChar_iff.2 (Or.inl h), hs.chars⟩
    · exact hidna.2.resolve_left (by simp [hstart])
    · exact Or.inr (hs.edge.resolve_left nofun)
    · exact fun hw => absurd (hs.whole hw).1.1 nofun
    · rw [if_neg (List.cons_ne_nil c pre), hlast]
      exact hs.rest

/-- a hyphen in front of the star -/
theorem starred_hyphen {pre post : List UInt8} (hstart : s.labelStart = false) :
    Starred flags s (hyphen :: pre) post ↔ Starred flags ⟨s.star, false, true, s.labelIdna, s.dots⟩ pre post := by
  have hlast : (decide ((hyphen :: pre).getLast? = some hyphen)) =
      if pre = [] then true else decide (pre.getLast? = some hyphen) := by
    cases pre with
    | nil => simp
    | cons d pre => simp [List.getLast?_cons]
  constructor
  · intro hs
    have hrest := hs.rest
    rw [if_neg (List.cons_ne_nil hyphen pre), hlast] at hrest
    refine ⟨fun d hd => hs.chars d (List.mem_cons_of_mem _ hd), nofun, ⟨hs.idna.1, nofun⟩, ?_, ?_, hrest⟩
    · exact Or.inr (hs.edge.resolve_left fun h => List.cons_ne_nil hyphen pre h.2)
    · exact fun hw => absurd (hs.whole hw).1.2 (List.cons_ne_nil hyphen pre)
  · intro hs
    refine ⟨?_, by simp [hstart], ⟨hs.idna.1, by simp [hstart]⟩, ?_, ?_, ?_⟩
    · exact List.forall_mem_cons.2 ⟨labelChar_iff.2 (Or.inr rfl), hs.chars⟩
    · exact Or.inr (hs.edge.resolve_left nofun)
    · exact fun hw => absurd (hs.whole hw).1.1 nofun
    · rw [if_neg (List.cons_ne_nil hyphen pre), hlast]
      exact hs.rest

/-- the character behind the star ends its label, or is the next one of the label -/
theorem head_all_dot {post : List UInt8} {labels : List (List UInt8)} (hchars : ∀ d ∈ post, labelChar d = true) :
    (post ++ dotted labels).head?.all (· = dot) = true ↔ post = [] := by
  cases post with
  | nil => cases labels <;> simp [dotted]
  | cons d post =>
    have hd : d ≠ dot := by
      rintro rfl
      exact absurd (hchars dot List.mem_cons_self) (by simp [labelChar_dot])
    simp [hd]

/-- the star itself -/
theorem scanStep_star (hstar : s.star = none) (hdots : s.dots = 0) :
    scanStep flags i star after s = some t ↔
      t = ⟨some i, false, s.labelHyphen, s.labelIdna, 0⟩ ∧ s.labelIdna = false ∧
        (s.labelStart = true ∨ after.head?.all (· = dot) = true) ∧
        (has flags X509_CHECK_FLAG_NO_PARTIAL_WILDCARDS = true → s.labelStart = true ∧ after.head?.all (· = dot) = true) := by
  obtain ⟨st, lstart, lhyphen, lidna, dots⟩ := s
  obtain rfl : st = none := hstar
  obtain rfl : dots = 0 := hdots
  rw [scanStep, if_pos rfl]
  cases lidna <;> cases lstart <;> cases after.head?.all (· = dot) <;>
    cases has flags X509_CHECK_FLAG_NO_PARTIAL_WILDCARDS <;> simp [eq_comm]

/-- **The scan up to the star.** -/
theorem scan_open (hstar : s.star = none) (hdots : s.dots = 0) :
    (scan flags i p s).bind Scan.finish = some k ↔
      ∃ pre post labels, p = pre ++ star :: (post ++ dotted labels) ∧ k = i + pre.length ∧ Starred flags s pre post ∧
        (∀ x ∈ labels, Label x) ∧ 2 ≤ labels.length := by
  induction p generalizing i s with
  | nil =>
    rw [scan, Option.bind_some, Scan.finish, hstar]
    constructor
    · intro h
      split_ifs at h
    · rintro ⟨pre, post, labels, hp, -⟩
      exact absurd hp.symm (by simp)
  | cons c after ih =>
    rw [scan_cons]
    by_cases hc : c = star
    · subst hc
      constructor
      · rintro ⟨t, ht, hrun⟩
        obtain ⟨rfl, hidna, hedge, hwhole⟩ := (scanStep_star hstar hdots).1 ht
        obtain ⟨hk, post, labels, rfl, hrest, hlabels, htwo⟩ := (scan_fixed (Or.inr rfl)).1 hrun
        rw [head_all_dot hrest.chars] at hedge hwhole
        refine ⟨[], post, labels, rfl, (Option.some.inj hk).symm, ?_, hlabels, by simpa using htwo⟩
        exact ⟨by simp, by simp, ⟨hidna, fun _ => rfl⟩, hedge.imp (⟨·, rfl⟩) id,
          fun h => ⟨⟨(hwhole h).1, rfl⟩, (hwhole h).2⟩, hrest⟩
      · rintro ⟨pre, post, labels, hp, rfl, hstarred, hlabels, htwo⟩
        cases pre with
        | cons d pre =>
          rw [List.cons_append, List.cons.injEq] at hp
          exact absurd (hstarred.chars d List.mem_cons_self) (by rw [← hp.1, labelChar_star]; exact Bool.false_ne_true)
        | nil =>
          obtain rfl : after = post ++ dotted labels := (List.cons.inj hp).2
          have hall := @head_all_dot _ labels hstarred.rest.chars
          refine ⟨_, (scanStep_star hstar hdots).2 ⟨rfl, hstarred.idna.1, ?_, fun h => ?_⟩, ?_⟩
          · exact hstarred.edge.imp (·.1) hall.2
          · exact ⟨(hstarred.whole h).1.1, hall.2 (hstarred.whole h).2⟩
          · exact (scan_fixed (Or.inr rfl)).2 ⟨rfl, post, labels, rfl, hstarred.rest, hlabels, by simpa using htwo⟩
    · constructor
      · rintro ⟨t, ht, hrun⟩
        cases (scanStep_eq_some hc).1 ht with
        | alnum halnum =>
          have hih := (ih (s := ⟨s.star, false, false, _, s.dots⟩) hstar hdots).1 hrun
          obtain ⟨pre, post, labels, rfl, rfl, hstarred, hlabels, htwo⟩ := hih
          exact ⟨c :: pre, post, labels, rfl, by rw [List.length_cons]; omega, (starred_alnum halnum).2 hstarred, hlabels,
            htwo⟩
        | dot hdot hhyphen hstart =>
          have hnone := ((scan_fixed (Or.inl (Nat.succ_ne_zero _))).1 hrun).1
          rw [hstar] at hnone
          cases hnone
        | hyphen hhyphen hstart =>
          have hih := (ih (s := ⟨s.star, false, true, _, s.dots⟩) hstar hdots).1 hrun
          obtain ⟨pre, post, labels, rfl, rfl, hstarred, hlabels, htwo⟩ := hih
          subst hhyphen
          exact ⟨hyphen :: pre, post, labels, rfl, by rw [List.length_cons]; omega, (starred_hyphen hstart).2 hstarred,
            hlabels, htwo⟩
      · rintro ⟨pre, post, labels, hp, rfl, hstarred, hlabels, htwo⟩
        cases pre with
        | nil => exact absurd (List.cons.inj hp).1 hc
        | cons d pre =>
          rw [List.cons_append, List.cons.injEq] at hp
          obtain ⟨rfl, rfl⟩ := hp
          rcases labelChar_iff.1 (hstarred.chars c List.mem_cons_self) with halnum | rfl
          · refine ⟨_, (scanStep_eq_some hc).2 (Scans.alnum halnum), (ih (s := ⟨s.star, false, false, _, s.dots⟩) hstar hdots).2 ?_⟩
            exact ⟨pre, post, labels, rfl, by rw [List.length_cons]; omega, (starred_alnum halnum).1 hstarred, hlabels, htwo⟩
          · have hstart : s.labelStart = false := Bool.eq_false_iff.2 fun h => hstarred.first h rfl
            refine ⟨_, (scanStep_eq_some hc).2 (Scans.hyphen rfl hstart), (ih (s := ⟨s.star, false, true, _, s.dots⟩) hstar hdots).2 ?_⟩
            exact ⟨pre, post, labels, rfl, by rw [List.length_cons]; omega, (starred_hyphen hstart).1 hstarred, hlabels, htwo⟩

/-- a pattern with a legal wildcard: the first label is `pre`, a star and `post` -/
abbrev Wildcard (flags : Flags) (pre post : List UInt8) (labels : List (List UInt8)) : Prop :=
  Starred flags ⟨none, true, false, false, 0⟩ pre post ∧ (∀ l ∈ labels, Label l) ∧ 2 ≤ labels.length

/-- **What `valid_star` accepts**: a first label with one star at its start or at its end, no IDNA prefix before it, and at
least two labels behind it. -/
theorem valid_star_iff : valid_star flags p = some k ↔
    ∃ pre post labels, p = pre ++ star :: (post ++ dotted labels) ∧ k = pre.length ∧ Wildcard flags pre post labels := by
  simp only [valid_star, scan_open (s := ⟨none, true, false, false, 0⟩) rfl rfl, Nat.zero_add]

/-! ## What a pattern matches -/

/-- equal but for the case of letters, and without a NUL -/
def SameName (pattern subject : List UInt8) : Prop := pattern.map toLower = subject.map toLower ∧ 0 ∉ pattern

theorem nocaseLoop_iff {pattern subject : List UInt8} (hlen : pattern.length = subject.length) :
    nocaseLoop pattern subject = true ↔ SameName pattern subject := by
  induction pattern generalizing subject with
  | nil =>
    obtain rfl : subject = [] := List.eq_nil_of_length_eq_zero hlen.symm
    simp [nocaseLoop, SameName]
  | cons l pattern ih =>
    cases subject with
    | nil => cases hlen
    | cons r subject =>
      have hih := ih (Nat.succ.inj hlen)
      simp only [SameName] at hih
      rw [nocaseLoop, SameName, List.map_cons, List.map_cons, List.cons.injEq, List.mem_cons, not_or]
      split_ifs with hnul hne
      · simp [hnul]
      · simp [hne.2]
      · have hlower : toLower l = toLower r := by
          by_contra hlower
          exact hne ⟨fun h => hlower (congrArg toLower h), hlower⟩
        rw [hih]
        simp only [hlower, true_and, ne_comm.1 hnul, not_false_eq_true]

theorem SameName.length {pattern subject : List UInt8} (h : SameName pattern subject) : pattern.length = subject.length := by
  simpa using congrArg List.length h.1

/-- what `skip_prefix` may skip -/
def Skippable (flags : Flags) (skip : List UInt8) : Prop :=
  has flags X509_CHECK_FLAG_DOT_SUBDOMAINS = true ∧
    ∀ c ∈ skip, c ≠ 0 ∧ (has flags X509_CHECK_FLAG_SINGLE_LABEL_SUBDOMAINS = true → c ≠ dot)

theorem skipLoop_iff {n : ℕ} {tail : List UInt8} (htail : tail.length = n) :
    skipLoop flags n p = tail ↔ ∃ skip, p = skip ++ tail ∧
      ∀ c ∈ skip, c ≠ 0 ∧ (has flags X509_CHECK_FLAG_SINGLE_LABEL_SUBDOMAINS = true → c ≠ dot) := by
  induction p with
  | nil =>
    rw [skipLoop]
    constructor
    · rintro rfl
      exact ⟨[], rfl, by simp⟩
    · rintro ⟨skip, hp, -⟩
      exact (List.append_eq_nil_iff.1 hp.symm).2.symm
  | cons c p ih =>
    rw [skipLoop]
    split_ifs with hskip hdot
    · -- a dot that may not be skipped, in front of a pattern that is too long
      simp only [Bool.and_eq_true, decide_eq_true_eq] at hdot
      constructor
      · rintro rfl
        exact absurd htail hskip.1.ne'
      · rintro ⟨skip, hp, hok⟩
        cases skip with
        | nil => exact absurd (hp ▸ htail) hskip.1.ne'
        | cons d skip => exact absurd (hdot.2 ▸ (List.cons.inj hp).1.symm) ((hok d List.mem_cons_self).2 hdot.1)
    · rw [ih]
      constructor
      · rintro ⟨skip, rfl, hok⟩
        refine ⟨c :: skip, rfl, List.forall_mem_cons.2 ⟨⟨hskip.2, fun hsingle hc => hdot ?_⟩, hok⟩⟩
        rw [hsingle, hc]
        rfl
      · rintro ⟨skip, hp, hok⟩
        cases skip with
        | nil => exact absurd (hp ▸ htail) hskip.1.ne'
        | cons d skip => exact ⟨skip, (List.cons.inj hp).2, fun e he => hok e (List.mem_cons_of_mem d he)⟩
    · constructor
      · rintro rfl
        exact ⟨[], rfl, by simp⟩
      · rintro ⟨skip, hp, hok⟩
        cases skip with
        | nil => exact hp
        | cons d skip =>
          obtain ⟨rfl, rfl⟩ := List.cons.inj hp
          refine absurd ⟨?_, (hok c List.mem_cons_self).1⟩ hskip
          rw [List.length_cons, List.append_eq, List.length_append, htail]
          omega

/-- **Comparison without case**, with a prefix of the pattern skipped for a subject that begins with a dot. -/
theorem equal_nocase_iff {subject : List UInt8} : equal_nocase flags p subject = true ↔
    ∃ skip tail, p = skip ++ tail ∧ (skip ≠ [] → Skippable flags skip) ∧ SameName tail subject := by
  have hwhole : ∀ q : List UInt8,
      (if q.length ≠ subject.length then false else nocaseLoop q subject) = true ↔ SameName q subject := by
    intro q
    split_ifs with hlen
    · exact iff_of_false not_false fun h => hlen h.length
    · exact nocaseLoop_iff (not_not.1 hlen)
  rw [equal_nocase, hwhole]
  dsimp only [ skip_prefix]
  split_ifs with hdots hlen
  · constructor
    · exact fun h => ⟨[], p, rfl, by simp, h⟩
    · rintro ⟨skip, tail, rfl, hskip, hname⟩
      cases skip with
      | nil => exact hname
      | cons c skip => exact absurd (hskip (List.cons_ne_nil c skip)).1 (by simp [hdots])
  · rw [Bool.not_eq_false] at hdots
    constructor
    · intro hname
      obtain ⟨skip, hp, hok⟩ := (skipLoop_iff hlen).1 rfl
      exact ⟨skip, _, hp, fun _ => ⟨hdots, hok⟩, hname⟩
    · rintro ⟨skip, tail, hp, hskip, hname⟩
      have htail : skipLoop flags subject.length p = tail := by
        refine (skipLoop_iff hname.length).2 ⟨skip, hp, ?_⟩
        cases skip with
        | nil => simp
        | cons c skip => exact (hskip (List.cons_ne_nil c skip)).2
      rwa [htail]
  · constructor
    · exact fun h => ⟨[], p, rfl, by simp, h⟩
    · rintro ⟨skip, tail, hp, hskip, hname⟩
      have htail : skipLoop flags subject.length p = tail := by
        refine (skipLoop_iff hname.length).2 ⟨skip, hp, ?_⟩
        cases skip with
        | nil => simp
        | cons c skip => exact (hskip (List.cons_ne_nil c skip)).2
      exact absurd (htail ▸ hname.length) hlen

/-- nothing is skipped of a pattern that is as long as the subject -/
theorem equal_nocase_same {subject : List UInt8} (hlen : p.length = subject.length) :
    equal_nocase flags p subject = true ↔ SameName p subject := by
  rw [equal_nocase_iff]
  constructor
  · rintro ⟨skip, tail, rfl, -, hname⟩
    have hskip : skip = [] := by
      have htail := hname.length
      rw [List.length_append] at hlen
      exact List.eq_nil_of_length_eq_zero (by omega)
    subst hskip
    exact hname
  · exact fun h => ⟨[], p, rfl, by simp, h⟩

/-- the wildcard is a whole label -/
def Whole (pre post : List UInt8) : Prop := pre = [] ∧ post = []

instance (pre post : List UInt8) : Decidable (Whole pre post) := inferInstanceAs (Decidable (_ ∧ _))

/-- the subject is covered by the pattern, with `mid` for the star -/
def Covers (flags : Flags) (pre post : List UInt8) (labels : List (List UInt8)) (subject : List UInt8) : Prop :=
  ∃ a mid b, subject = a ++ mid ++ b ∧ SameName pre a ∧ SameName b (post ++ dotted labels) ∧
    (Whole pre post → mid ≠ []) ∧ (¬ Whole pre post → startsXn subject = false) ∧
    (mid = [star] ∨ ∀ c ∈ mid, labelChar c = true ∨
      Whole pre post ∧ has flags X509_CHECK_FLAG_MULTI_LABEL_WILDCARDS = true ∧ c = dot)

theorem permitted_iff {b : Bool} : permitted b c = true ↔ labelChar c = true ∨ b = true ∧ c = dot := by
  simp [permitted, labelChar]

/-- `wildcard_match` on a subject that is cut where the pattern says -/
theorem wildcard_match_append {pre suffix a mid b : List UInt8} (ha : pre.length = a.length)
    (hb : b.length = suffix.length) {whole : Bool} (hwhole : (pre.length = 0 && suffix.head? = some dot : Bool) = whole) :
    wildcard_match flags pre suffix (a ++ mid ++ b) = true ↔
      SameName pre a ∧ SameName b suffix ∧ (whole = true → mid ≠ []) ∧
        (whole = false → startsXn (a ++ mid ++ b) = false) ∧
        (mid = [star] ∨ ∀ c ∈ mid, permitted (whole && has flags X509_CHECK_FLAG_MULTI_LABEL_WILDCARDS) c = true) := by
  have htake : (a ++ mid ++ b).take pre.length = a := by rw [ha, List.append_assoc, List.take_left]
  have hdrop : (a ++ mid ++ b).drop ((a ++ mid ++ b).length - suffix.length) = b := by
    rw [← hb, List.length_append, Nat.add_sub_cancel, List.drop_left]
  have hmid : ((a ++ mid ++ b).drop pre.length).take ((a ++ mid ++ b).length - pre.length - suffix.length) = mid := by
    have hlen : (a ++ mid ++ b).length - pre.length - suffix.length = mid.length := by
      simp only [List.length_append, ha, hb]
      omega
    rw [hlen, ha, List.append_assoc, List.drop_left, List.take_left]
  have hlong : ¬ (a ++ mid ++ b).length < pre.length + suffix.length := by
    simp only [List.length_append, ha, hb]
    omega
  have hpre := @equal_nocase_same flags _ _ ha
  have hsuffix := @equal_nocase_same flags _ _ hb
  simp only [wildcard_match, if_neg hlong, htake, hdrop, hmid, hwhole]
  rw [← hpre, ← hsuffix]
  by_cases hstar : mid = [star]
  · cases equal_nocase flags pre a <;> cases equal_nocase flags b suffix <;> cases whole <;>
      cases startsXn (a ++ mid ++ b) <;> simp [hstar]
  · cases equal_nocase flags pre a <;> cases equal_nocase flags b suffix <;> cases whole <;>
      cases startsXn (a ++ mid ++ b) <;> simp [hstar]

theorem wildcard_match_iff {pre post : List UInt8} {labels : List (List UInt8)} {subject : List UInt8}
    (hw : Wildcard flags pre post labels) :
    wildcard_match flags pre (post ++ dotted labels) subject = true ↔ Covers flags pre post labels subject := by
  have hne : labels ≠ [] := by
    rintro rfl
    exact absurd hw.2.2 (by simp)
  have hwhole : (pre.length = 0 && (post ++ dotted labels).head? = some dot : Bool) = decide (Whole pre post) := by
    rw [Bool.eq_iff_iff, Bool.and_eq_true, decide_eq_true_eq, decide_eq_true_eq, decide_eq_true_eq,
      List.length_eq_zero_iff, Whole, and_congr_right_iff]
    intro _
    cases post with
    | nil =>
      obtain ⟨l, labels', rfl⟩ := List.exists_cons_of_ne_nil hne
      simp [dotted_cons]
    | cons d post =>
      have hd : d ≠ dot := by
        rintro rfl
        exact absurd (hw.1.rest.chars dot List.mem_cons_self) (by simp [labelChar_dot])
      simp [hd]
  have hcut : ∀ a mid b : List UInt8, pre.length = a.length → b.length = (post ++ dotted labels).length →
      (wildcard_match flags pre (post ++ dotted labels) (a ++ mid ++ b) = true ↔
        SameName pre a ∧ SameName b (post ++ dotted labels) ∧ (Whole pre post → mid ≠ []) ∧
          (¬ Whole pre post → startsXn (a ++ mid ++ b) = false) ∧ (mid = [star] ∨ ∀ c ∈ mid, labelChar c = true ∨
            Whole pre post ∧ has flags X509_CHECK_FLAG_MULTI_LABEL_WILDCARDS = true ∧ c = dot)) := by
    intro a mid b ha hb
    rw [wildcard_match_append ha hb hwhole]
    simp only [permitted_iff, Bool.and_eq_true, decide_eq_true_eq, decide_eq_false_iff_not, and_assoc]
  constructor
  · intro h
    have hlen : ¬ subject.length < pre.length + (post ++ dotted labels).length := by
      intro hlt
      rw [wildcard_match, if_pos hlt] at h
      cases h
    -- the subject is cut at the length of the prefix, and of the suffix
    have hcutting : subject = subject.take pre.length ++
        (subject.drop pre.length).take (subject.length - pre.length - (post ++ dotted labels).length) ++
          (subject.drop pre.length).drop (subject.length - pre.length - (post ++ dotted labels).length) := by
      rw [List.append_assoc, List.take_append_drop, List.take_append_drop]
    rw [hcutting, hcut _ _ _ (by rw [List.length_take]; omega) (by rw [List.length_drop, List.length_drop]; omega),
      ← hcutting] at h
    exact ⟨_, _, _, hcutting, h⟩
  · rintro ⟨a, mid, b, rfl, hpre, hb, hrest⟩
    exact (hcut a mid b hpre.length hb.length).2 ⟨hpre, hb, hrest⟩

/-- a subject that stands for the subdomains of a domain -/
def DotLed (subject : List UInt8) : Prop := 1 < subject.length ∧ subject.head? = some dot

/-- the pattern has a legal wildcard -/
def HasWildcard (flags : Flags) (p : List UInt8) : Prop :=
  ∃ pre post labels, p = pre ++ star :: (post ++ dotted labels) ∧ Wildcard flags pre post labels

theorem valid_star_eq_none : valid_star flags p = none ↔ ¬ HasWildcard flags p := by
  constructor
  · rintro h ⟨pre, post, labels, hp, hw⟩
    have hsome := valid_star_iff.2 ⟨pre, post, labels, hp, rfl, hw⟩
    rw [h] at hsome
    cases hsome
  · intro h
    by_contra hne
    obtain ⟨k, hk⟩ := Option.ne_none_iff_exists'.1 hne
    obtain ⟨pre, post, labels, hp, -, hw⟩ := valid_star_iff.1 hk
    exact h ⟨pre, post, labels, hp, hw⟩

/-- **What a pattern matches.** A legal wildcard covers one piece of one label, or the whole of it; a pattern without one is
compared without case, and for a subject of subdomains at its end only. -/
theorem equal_wildcard_iff {subject : List UInt8} : equal_wildcard flags p subject = true ↔
    (¬ DotLed subject ∧ ∃ pre post labels, p = pre ++ star :: (post ++ dotted labels) ∧ Wildcard flags pre post labels ∧
        Covers flags pre post labels subject) ∨
      (DotLed subject ∨ ¬ HasWildcard flags p) ∧
        ∃ skip tail, p = skip ++ tail ∧ (skip ≠ [] → Skippable flags skip) ∧ SameName tail subject := by
  by_cases hdot : DotLed subject
  · have hfound : (if 1 < subject.length ∧ subject.head? = some dot then none else valid_star flags p) = none :=
      if_pos hdot
    have heq : equal_wildcard flags p subject = equal_nocase flags p subject := by
      rw [equal_wildcard, hfound]
    rw [heq, equal_nocase_iff]
    simp [hdot]
  · have hfound : (if 1 < subject.length ∧ subject.head? = some dot then none else valid_star flags p) =
        valid_star flags p := if_neg hdot
    cases hv : valid_star flags p with
    | none =>
      have heq : equal_wildcard flags p subject = equal_nocase flags p subject := by
        rw [equal_wildcard, hfound, hv]
      have hnone := valid_star_eq_none.1 hv
      rw [heq, equal_nocase_iff]
      constructor
      · exact fun h => Or.inr ⟨Or.inr hnone, h⟩
      · rintro (⟨-, pre, post, labels, hp, hw, -⟩ | ⟨-, h⟩)
        · exact absurd ⟨pre, post, labels, hp, hw⟩ hnone
        · exact h
    | some k =>
      have heq : equal_wildcard flags p subject = wildcard_match flags (p.take k) (p.drop (k + 1)) subject := by
        rw [equal_wildcard, hfound, hv]
      have hcut : ∀ pre post labels, p = pre ++ star :: (post ++ dotted labels) → k = pre.length →
          p.take k = pre ∧ p.drop (k + 1) = post ++ dotted labels := by
        rintro pre post labels rfl rfl
        exact ⟨List.take_left, by rw [← List.drop_drop, List.drop_left]; rfl⟩
      obtain ⟨pre, post, labels, hp, hk, hw⟩ := valid_star_iff.1 hv
      obtain ⟨htake, hdrop⟩ := hcut pre post labels hp hk
      rw [heq, htake, hdrop, wildcard_match_iff hw]
      constructor
      · exact fun h => Or.inl ⟨hdot, pre, post, labels, hp, hw, h⟩
      · rintro (⟨-, pre', post', labels', hp', hw', h⟩ | ⟨h, -⟩)
        · have hk' : k = pre'.length :=
            Option.some.inj (hv.symm.trans (valid_star_iff.2 ⟨pre', post', labels', hp', rfl, hw'⟩))
          obtain ⟨htake', hdrop'⟩ := hcut pre' post' labels' hp' hk'
          rw [← wildcard_match_iff hw', ← htake', ← hdrop'] at h
          rwa [htake, hdrop, wildcard_match_iff hw] at h
        · exact absurd (h.resolve_left hdot) (not_not_intro ⟨pre, post, labels, hp, hw⟩)

/-! ### Labels and NULs -/

/-- a change of case is one between letters -/
theorem toLower_eq_dot (c : UInt8) : toLower c = dot ↔ c = dot := by
  have hall : ∀ n < 256, toLower (UInt8.ofNat n) = dot ↔ UInt8.ofNat n = dot := by decide +kernel
  simpa using hall c.toNat c.toNat_lt

theorem toLower_eq_zero (c : UInt8) : toLower c = 0 ↔ c = 0 := by
  have hall : ∀ n < 256, toLower (UInt8.ofNat n) = 0 ↔ UInt8.ofNat n = 0 := by decide +kernel
  simpa using hall c.toNat c.toNat_lt

theorem count_map_toLower (l : List UInt8) : (l.map toLower).count dot = l.count dot := by
  rw [List.count_eq_countP, List.countP_map, List.count_eq_countP]
  exact List.countP_congr fun c _ => by simp [toLower_eq_dot]

/-- names that differ in case only have as many labels -/
theorem SameName.count {pattern subject : List UInt8} (h : SameName pattern subject) :
    pattern.count dot = subject.count dot := by
  rw [← count_map_toLower, h.1, count_map_toLower]

theorem SameName.not_mem {pattern subject : List UInt8} (h : SameName pattern subject) : 0 ∉ subject := by
  intro hmem
  have hlower : (0 : UInt8) ∈ pattern.map toLower := h.1 ▸ List.mem_map.2 ⟨0, hmem, (toLower_eq_zero 0).2 rfl⟩
  obtain ⟨c, hc, hzero⟩ := List.mem_map.1 hlower
  exact h.2 ((toLower_eq_zero c).1 hzero ▸ hc)

theorem labelChar_count {l : List UInt8} (h : ∀ c ∈ l, labelChar c = true) : l.count dot = 0 :=
  List.count_eq_zero.2 fun hmem => absurd (h dot hmem) (by simp [labelChar_dot])

/-- **A wildcard stands for a part of one label**, unless the flags let it span several: subject and pattern have as many
labels. -/
theorem equal_wildcard_count {subject : List UInt8} (hmulti : has flags X509_CHECK_FLAG_MULTI_LABEL_WILDCARDS = false)
    (hdots : has flags X509_CHECK_FLAG_DOT_SUBDOMAINS = false) (h : equal_wildcard flags p subject = true) :
    subject.count dot = p.count dot := by
  rcases equal_wildcard_iff.1 h with ⟨-, pre, post, labels, rfl, hw, hcovers⟩ | ⟨-, skip, tail, rfl, hskip, hname⟩
  · obtain ⟨a, mid, b, rfl, hpre, hb, -, -, hmid⟩ := hcovers
    have hnone : mid.count dot = 0 := by
      rcases hmid with rfl | hmid
      · decide
      · exact labelChar_count fun c hc => (hmid c hc).resolve_right (by simp [hmulti])
    have hstar : (star :: (post ++ dotted labels)).count dot = (post ++ dotted labels).count dot :=
      List.count_cons_of_ne (by decide)
    rw [List.count_append, List.count_append, List.count_append, hstar, hnone, hpre.count, hb.count, Nat.add_zero]
  · cases skip with
    | nil => exact hname.count.symm
    | cons c skip => exact absurd (hskip (List.cons_ne_nil c skip)).1 (by simp [hdots])

theorem equal_wildcard_count_www :
    ("www.example.com".toUTF8.toList.count dot) = "*.example.com".toUTF8.toList.count dot :=
  @equal_wildcard_count 0 _ _ (by decide) (by decide) (by decide +kernel)

/-- a pattern that matches has no NUL in it, also not in a part that is skipped -/
theorem equal_wildcard_not_mem {subject : List UInt8} (h : equal_wildcard flags p subject = true) : 0 ∉ p := by
  rcases equal_wildcard_iff.1 h with ⟨-, pre, post, labels, rfl, hw, hcovers⟩ | ⟨-, skip, tail, rfl, hskip, hname⟩
  · obtain ⟨a, mid, b, -, hpre, hb, -⟩ := hcovers
    rw [List.mem_append, List.mem_cons, not_or, not_or]
    exact ⟨hpre.2, by decide, hb.not_mem⟩
  · rw [List.mem_append, not_or]
    refine ⟨fun hmem => ?_, hname.2⟩
    exact ((hskip (List.ne_nil_of_mem hmem)).2 0 hmem).1 rfl

theorem equal_nocase_not_mem {subject : List UInt8} (h : equal_nocase flags p subject = true) : 0 ∉ p := by
  obtain ⟨skip, tail, rfl, hskip, hname⟩ := equal_nocase_iff.1 h
  rw [List.mem_append, not_or]
  exact ⟨fun hmem => ((hskip (List.ne_nil_of_mem hmem)).2 0 hmem).1 rfl, hname.2⟩

end Bboy.X509CheckHost
