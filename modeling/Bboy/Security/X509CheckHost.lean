/-
Lean model of `X509_check_host` (`bboy/security/x509_check_host.{h,cc}`): the search through the alternative names and the
subject of a certificate. OpenSSL's conversion to UTF-8 is a parameter.

- `do_x509_check_iff`: the answer 1 needs a DNS name of the certificate that matches, or a common name if there is no DNS
  name, or if the flags ask for it.
- `X509_check_host_iff`: the same for a host name in memory. A name of the certificate with a NUL in it never matches, and a
  host name with one is refused.
-/
import Bboy.Security.X509Wildcard

namespace Bboy.X509CheckHost

variable {flags : Flags}

/-! ## Certificates -/

def V_ASN1_OCTET_STRING : ℤ := 4

def V_ASN1_IA5STRING : ℤ := 22

structure ASN1_STRING where
  type : ℤ
  data : Option (List UInt8)
  deriving DecidableEq, Repr

inductive CheckType where
  | GEN_EMAIL
  | GEN_DNS
  | GEN_IPADD
  deriving DecidableEq, Repr

/-- the attributes of a subject that the search asks for -/
inductive Nid where
  | commonName
  | pkcs9_emailAddress
  | other
  deriving DecidableEq, Repr

/-- a name of a type that is looked for, or any other one -/
structure GENERAL_NAME where
  type : Option CheckType
  d : ASN1_STRING
  deriving DecidableEq, Repr

/-- the alternative names, none if the certificate has no such extension, and the subject -/
structure X509 where
  subject_alt_name : Option (List GENERAL_NAME)
  subject : List (Nid × ASN1_STRING)
  deriving DecidableEq, Repr

/-- the result, and the name that matched: `strndup` ends it at a NUL -/
structure Checked where
  rv : ℤ
  peername : Option (List UInt8)
  deriving DecidableEq, Repr

def strndup (str : List UInt8) : List UInt8 := str.takeWhile (· ≠ 0)

/-- the result of a comparison with the name `a` -/
def checked (equal : Bool) (a : List UInt8) : Checked := if equal then ⟨1, some (strndup a)⟩ else ⟨0, none⟩

/-- `cmp_type` is none where the string is converted; `toUtf8` is `ASN1_STRING_to_UTF8`, none if it fails -/
def do_check_string (toUtf8 : ASN1_STRING → Option (List UInt8)) (a : ASN1_STRING) (cmp_type : Option ℤ)
    (equal : List UInt8 → List UInt8 → Bool) (b : List UInt8) : Checked :=
  match a.data with
  | none => ⟨0, none⟩
  | some data =>
    if data = [] then ⟨0, none⟩
    else
      match cmp_type with
      | some cmp_type =>
        if cmp_type ≠ a.type then ⟨0, none⟩
        else if cmp_type = V_ASN1_IA5STRING then checked (equal data b) data
        else checked (data = b) data
      | none =>
        match toUtf8 a with
        | none => ⟨-1, none⟩
        | some astr => checked (equal astr b) astr

/-- the first string whose check is not 0 -/
def firstChecked (check : ASN1_STRING → Checked) : List ASN1_STRING → Checked
  | [] => ⟨0, none⟩
  | a :: rest => if (check a).rv ≠ 0 then check a else firstChecked check rest

def alt_type : CheckType → ℤ
  | .GEN_EMAIL => V_ASN1_IA5STRING
  | .GEN_DNS => V_ASN1_IA5STRING
  | .GEN_IPADD => V_ASN1_OCTET_STRING

def cnid : CheckType → Option Nid
  | .GEN_EMAIL => some .pkcs9_emailAddress
  | .GEN_DNS => some .commonName
  | .GEN_IPADD => none

/-- the internal flag is set for a host name that begins with a dot, and only then -/
def checkFlags (flags : Flags) (check_type : CheckType) (chk : List UInt8) : Flags :=
  let flags := flags &&& ~~~X509_CHECK_FLAG_DOT_SUBDOMAINS
  if check_type = .GEN_DNS ∧ 1 < chk.length ∧ chk.head? = some dot then flags ||| X509_CHECK_FLAG_DOT_SUBDOMAINS
  else flags

def equalFn (flags : Flags) : CheckType → List UInt8 → List UInt8 → Bool
  | .GEN_EMAIL => equal_email
  | .GEN_DNS =>
    if has flags X509_CHECK_FLAG_NO_WILDCARDS then equal_nocase flags else equal_wildcard flags
  | .GEN_IPADD => equal_case flags

/-- the alternative names of the type -/
def sanNames (x : X509) (check_type : CheckType) : List ASN1_STRING :=
  ((x.subject_alt_name.getD []).filter (·.type = some check_type)).map (·.d)

def subjectNames (x : X509) (nid : Nid) : List ASN1_STRING := (x.subject.filter (·.1 = nid)).map (·.2)

def do_x509_check (toUtf8 : ASN1_STRING → Option (List UInt8)) (x : X509) (chk : List UInt8) (flags : Flags)
    (check_type : CheckType) : Checked :=
  let flags := checkFlags flags check_type chk
  let equal := equalFn flags check_type
  let names := sanNames x check_type
  let r := firstChecked (fun a => do_check_string toUtf8 a (some (alt_type check_type)) equal chk) names
  if r.rv ≠ 0 then r
  else if names ≠ [] ∧ has flags X509_CHECK_FLAG_ALWAYS_CHECK_SUBJECT = false then ⟨0, none⟩
  else
    match cnid check_type with
    | none => ⟨0, none⟩
    | some nid =>
      if has flags X509_CHECK_FLAG_NEVER_CHECK_SUBJECT then ⟨0, none⟩
      else firstChecked (fun a => do_check_string toUtf8 a none equal chk) (subjectNames x nid)

def strlen (mem : List UInt8) : ℕ := (mem.takeWhile (· ≠ 0)).length

/-- the host name that is checked, none if a NUL is embedded in it; `mem` is the memory at `chk` -/
def hostName (mem : List UInt8) (chklen : ℕ) : Option (List UInt8) :=
  if chklen = 0 then some (mem.take (strlen mem))
  else if 0 ∈ mem.take (if 1 < chklen then chklen - 1 else chklen) then none
  else if 1 < chklen ∧ mem[chklen - 1]? = some 0 then some (mem.take (chklen - 1))
  else some (mem.take chklen)

def X509_check_host (toUtf8 : ASN1_STRING → Option (List UInt8)) (x : X509) (chk : Option (List UInt8)) (chklen : ℕ)
    (flags : Flags) : Checked :=
  match chk with
  | none => ⟨-2, none⟩
  | some mem =>
    match hostName mem chklen with
    | none => ⟨-2, none⟩
    | some host => do_x509_check toUtf8 x host flags .GEN_DNS

/-! ### The answer -/

variable {toUtf8 : ASN1_STRING → Option (List UInt8)} {equal : List UInt8 → List UInt8 → Bool} {a : ASN1_STRING}
  {b name : List UInt8} {check : ASN1_STRING → Checked} {names : List ASN1_STRING} {r : Checked}

theorem firstChecked_iff (hr : r.rv ≠ 0) : firstChecked check names = r ↔
    ∃ pre a post, names = pre ++ a :: post ∧ (∀ b ∈ pre, (check b).rv = 0) ∧ check a = r := by
  induction names with
  | nil =>
    constructor
    · rintro rfl
      exact absurd rfl hr
    · rintro ⟨pre, a, post, h, -⟩
      exact absurd h (by simp)
  | cons b names ih =>
    rw [firstChecked]
    split_ifs with hb
    · constructor
      · exact fun h => ⟨[], b, names, rfl, by simp, h⟩
      · rintro ⟨pre, a, post, h, hpre, ha⟩
        cases pre with
        | nil => rwa [(List.cons.inj h).1]
        | cons d pre => exact absurd ((List.cons.inj h).1 ▸ hpre d List.mem_cons_self) hb
    · rw [ih]
      constructor
      · rintro ⟨pre, a, post, rfl, hpre, ha⟩
        exact ⟨b :: pre, a, post, rfl, List.forall_mem_cons.2 ⟨not_not.1 hb, hpre⟩, ha⟩
      · rintro ⟨pre, a, post, h, hpre, ha⟩
        cases pre with
        | nil =>
          rw [← (List.cons.inj h).1] at ha
          exact absurd (ha ▸ hr) hb
        | cons d pre => exact ⟨pre, a, post, (List.cons.inj h).2, fun e he => hpre e (List.mem_cons_of_mem d he), ha⟩

theorem firstChecked_zero : (firstChecked check names).rv = 0 ↔ ∀ a ∈ names, (check a).rv = 0 := by
  induction names with
  | nil => simp [firstChecked]
  | cons b names ih =>
    rw [firstChecked, List.forall_mem_cons]
    split_ifs with hb
    · exact iff_of_false hb fun h => hb h.1
    · rw [ih]
      exact ⟨fun h => ⟨not_not.1 hb, h⟩, And.right⟩

theorem strndup_eq (h : 0 ∉ name) : strndup name = name :=
  List.takeWhile_eq_self_iff.2 fun c hc => by
    have hne : c ≠ 0 := fun heq => h (heq ▸ hc)
    simpa using hne

/-- a comparison that refuses a NUL -/
theorem checked_eq (hnul : ∀ n, equal n b = true → 0 ∉ n) {astr : List UInt8} :
    checked (equal astr b) astr = ⟨1, some name⟩ ↔ astr = name ∧ equal name b = true := by
  unfold checked
  split_ifs with h
  · rw [strndup_eq (hnul astr h)]
    constructor
    · intro heq
      obtain rfl : astr = name := by simpa using heq
      exact ⟨rfl, h⟩
    · rintro ⟨rfl, -⟩
      rfl
  · constructor
    · intro heq
      cases heq
    · rintro ⟨rfl, h'⟩
      exact absurd h' h

theorem checked_rv (e : Bool) (n : List UInt8) : (checked e n).rv = if e then 1 else 0 := by cases e <;> rfl

/-- an alternative name that identifies the host -/
def Identifies (equal : List UInt8 → List UInt8 → Bool) (host : List UInt8) (a : ASN1_STRING) : Prop :=
  a.type = V_ASN1_IA5STRING ∧ ∃ data, a.data = some data ∧ data ≠ [] ∧ equal data host = true

theorem check_ia5_eq (toUtf8 : ASN1_STRING → Option (List UInt8)) (a : ASN1_STRING)
    (equal : List UInt8 → List UInt8 → Bool) (b : List UInt8) :
    do_check_string toUtf8 a (some V_ASN1_IA5STRING) equal b =
      match a.data with
      | none => ⟨0, none⟩
      | some data =>
        if data = [] then ⟨0, none⟩
        else if V_ASN1_IA5STRING ≠ a.type then ⟨0, none⟩
        else checked (equal data b) data := rfl

theorem check_ia5 (hnul : ∀ n, equal n b = true → 0 ∉ n) :
    do_check_string toUtf8 a (some V_ASN1_IA5STRING) equal b = ⟨1, some name⟩ ↔
      a.type = V_ASN1_IA5STRING ∧ a.data = some name ∧ name ≠ [] ∧ equal name b = true := by
  rw [check_ia5_eq]
  cases a.data with
  | none => simp
  | some data =>
    dsimp only
    split_ifs with hnil htype
    · simp only [Checked.mk.injEq, zero_ne_one, false_and, Option.some.injEq, false_iff]
      rintro ⟨-, rfl, hne, -⟩
      exact hne hnil
    · simp only [Checked.mk.injEq, zero_ne_one, false_and, false_iff]
      exact fun h => htype h.1.symm
    · rw [checked_eq hnul]
      constructor
      · rintro ⟨rfl, h⟩
        exact ⟨(not_not.1 htype).symm, rfl, hnil, h⟩
      · rintro ⟨-, hdata, -, h⟩
        exact ⟨Option.some.inj hdata, h⟩

theorem check_ia5_zero :
    (do_check_string toUtf8 a (some V_ASN1_IA5STRING) equal b).rv = 0 ↔ ¬ Identifies equal b a := by
  rw [check_ia5_eq, Identifies]
  cases a.data with
  | none => simp
  | some data =>
    dsimp only
    split_ifs with hnil htype
    · simp [hnil]
    · simp [ne_comm.1 htype]
    · rw [checked_rv]
      have htype' : a.type = V_ASN1_IA5STRING := (not_not.1 htype).symm
      simp [hnil, htype']

theorem check_utf8 (hnul : ∀ n, equal n b = true → 0 ∉ n) :
    do_check_string toUtf8 a none equal b = ⟨1, some name⟩ ↔
      (∃ data, a.data = some data ∧ data ≠ []) ∧ toUtf8 a = some name ∧ equal name b = true := by
  unfold do_check_string
  cases a.data with
  | none => simp
  | some data =>
    dsimp only
    split_ifs with hnil
    · simp [hnil]
    · cases toUtf8 a with
      | none => simp
      | some astr =>
        dsimp only
        rw [checked_eq hnul]
        constructor
        · rintro ⟨rfl, h⟩
          exact ⟨⟨data, rfl, hnil⟩, rfl, h⟩
        · rintro ⟨-, hastr, h⟩
          exact ⟨Option.some.inj hastr, h⟩

theorem equalFn_not_mem {n : List UInt8} (h : equalFn flags .GEN_DNS n b = true) : 0 ∉ n := by
  unfold equalFn at h
  split_ifs at h
  · exact equal_nocase_not_mem h
  · exact equal_wildcard_not_mem h

/-- the first alternative name that identifies the host is `name` -/
def SanAnswer (x : X509) (equal : List UInt8 → List UInt8 → Bool) (host name : List UInt8) : Prop :=
  ∃ pre a post, sanNames x .GEN_DNS = pre ++ a :: post ∧ (∀ b ∈ pre, ¬ Identifies equal host b) ∧
    a.type = V_ASN1_IA5STRING ∧ a.data = some name ∧ name ≠ []

/-- the first common name that has an answer is `name`, and the alternative names leave the question open -/
def CommonNameAnswer (toUtf8 : ASN1_STRING → Option (List UInt8)) (x : X509) (flags : Flags)
    (equal : List UInt8 → List UInt8 → Bool) (host name : List UInt8) : Prop :=
  (∀ a ∈ sanNames x .GEN_DNS, ¬ Identifies equal host a) ∧
    (sanNames x .GEN_DNS = [] ∨ has flags X509_CHECK_FLAG_ALWAYS_CHECK_SUBJECT = true) ∧
    has flags X509_CHECK_FLAG_NEVER_CHECK_SUBJECT = false ∧
    ∃ pre a post, subjectNames x .commonName = pre ++ a :: post ∧
      (∀ b ∈ pre, (do_check_string toUtf8 b none equal host).rv = 0) ∧
      (∃ data, a.data = some data ∧ data ≠ []) ∧ toUtf8 a = some name

theorem do_x509_check_iff {x : X509} {host : List UInt8} (flags : Flags) :
    let fl := checkFlags flags .GEN_DNS host
    let equal := equalFn fl .GEN_DNS
    do_x509_check toUtf8 x host flags .GEN_DNS = ⟨1, some name⟩ ↔
      0 ∉ name ∧ equal name host = true ∧ (SanAnswer x equal host name ∨ CommonNameAnswer toUtf8 x fl equal host name) := by
  intro fl equal
  have hnul : ∀ n, equal n host = true → 0 ∉ n := fun n h => equalFn_not_mem h
  have hne : (⟨1, some name⟩ : Checked).rv ≠ 0 := one_ne_zero
  set checkSan := fun a => do_check_string toUtf8 a (some V_ASN1_IA5STRING) equal host with hcheckSan
  set checkCn := fun a => do_check_string toUtf8 a none equal host with hcheckCn
  have heq : do_x509_check toUtf8 x host flags .GEN_DNS =
      if (firstChecked checkSan (sanNames x .GEN_DNS)).rv ≠ 0 then firstChecked checkSan (sanNames x .GEN_DNS)
      else if sanNames x .GEN_DNS ≠ [] ∧ has fl X509_CHECK_FLAG_ALWAYS_CHECK_SUBJECT = false then ⟨0, none⟩
      else if has fl X509_CHECK_FLAG_NEVER_CHECK_SUBJECT then ⟨0, none⟩
      else firstChecked checkCn (subjectNames x .commonName) := rfl
  rw [heq]
  by_cases hsan : (firstChecked checkSan (sanNames x .GEN_DNS)).rv = 0
  · have hnone : ∀ a ∈ sanNames x .GEN_DNS, ¬ Identifies equal host a := fun a ha =>
      check_ia5_zero.1 (firstChecked_zero.1 hsan a ha)
    rw [if_neg (not_not_intro hsan)]
    have hleft : equal name host = true → ¬ SanAnswer x equal host name := by
      rintro he ⟨pre, a, post, hnames, -, htype, hdata, hne⟩
      exact hnone a (by rw [hnames]; simp) ⟨htype, name, hdata, hne, he⟩
    split_ifs with hskip hnever
    · refine iff_of_false (by simp) ?_
      rintro ⟨-, he, h | h⟩
      · exact hleft he h
      · rcases h.2.1 with h | h
        · exact hskip.1 h
        · rw [hskip.2] at h
          cases h
    · refine iff_of_false (by simp) ?_
      rintro ⟨-, he, h | h⟩
      · exact hleft he h
      · rw [h.2.2.1] at hnever
        cases hnever
    · rw [firstChecked_iff hne]
      have hopen : sanNames x .GEN_DNS = [] ∨ has fl X509_CHECK_FLAG_ALWAYS_CHECK_SUBJECT = true := by
        by_contra hor
        rw [not_or, Bool.not_eq_true] at hor
        exact hskip hor
      constructor
      · rintro ⟨pre, a, post, hnames, hpre, ha⟩
        obtain ⟨hdata, hutf8, he⟩ := (check_utf8 hnul).1 ha
        exact ⟨hnul name he, he, Or.inr ⟨hnone, hopen, by simpa using hnever, pre, a, post, hnames, hpre, hdata, hutf8⟩⟩
      · rintro ⟨-, he, h | h⟩
        · exact absurd h (hleft he)
        · obtain ⟨-, -, -, pre, a, post, hnames, hpre, hdata, hutf8⟩ := h
          exact ⟨pre, a, post, hnames, hpre, (check_utf8 hnul).2 ⟨hdata, hutf8, he⟩⟩
  · rw [if_pos hsan, firstChecked_iff hne]
    constructor
    · rintro ⟨pre, a, post, hnames, hpre, ha⟩
      obtain ⟨htype, hdata, hnil, he⟩ := (check_ia5 hnul).1 ha
      exact ⟨hnul name he, he, Or.inl ⟨pre, a, post, hnames, fun b hb => check_ia5_zero.1 (hpre b hb), htype, hdata, hnil⟩⟩
    · rintro ⟨-, he, h | h⟩
      · obtain ⟨pre, a, post, hnames, hpre, htype, hdata, hnil⟩ := h
        exact ⟨pre, a, post, hnames, fun b hb => check_ia5_zero.2 (hpre b hb), (check_ia5 hnul).2 ⟨htype, hdata, hnil, he⟩⟩
      · exact absurd (firstChecked_zero.2 fun a ha => check_ia5_zero.2 (h.1 a ha)) hsan

/-- **The answer of `X509_check_host`** is 1, with `name` for the peer, exactly when the host name has no embedded NUL, and
`name` is the first alternative name that matches it, or a common name where no DNS name stands against that. The name
that matched has no NUL in it. -/
theorem X509_check_host_iff (toUtf8 : ASN1_STRING → Option (List UInt8)) (x : X509) (mem : List UInt8) (chklen : ℕ)
    (flags : Flags) (name : List UInt8) :
    X509_check_host toUtf8 x (some mem) chklen flags = ⟨1, some name⟩ ↔
      ∃ host, hostName mem chklen = some host ∧ 0 ∉ name ∧
        equalFn (checkFlags flags .GEN_DNS host) .GEN_DNS name host = true ∧
        (SanAnswer x (equalFn (checkFlags flags .GEN_DNS host) .GEN_DNS) host name ∨
          CommonNameAnswer toUtf8 x (checkFlags flags .GEN_DNS host) (equalFn (checkFlags flags .GEN_DNS host) .GEN_DNS)
            host name) := by
  rw [X509_check_host]
  cases hostName mem chklen with
  | none => simp
  | some host =>
    constructor
    · exact fun h => ⟨host, rfl, (do_x509_check_iff flags).1 h⟩
    · rintro ⟨host', hhost, h⟩
      obtain rfl := Option.some.inj hhost
      exact (do_x509_check_iff flags).2 h

end Bboy.X509CheckHost
