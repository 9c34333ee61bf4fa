/-
Lean model of `CertSigner::CopyExtensions` and `FillCertTemplateFromRequest` (`bboy/security/ca/cert_management.cc`).

The functions of OpenSSL on extensions are a parameter, with what is documented of them (`Documented`): `sk_num` of NULL is
-1, `sk_value` of NULL is NULL, and NULL cannot be added. The do-while loop has fuel. `none` is a crash in OpenSSL, or a loop
that is not at its end.

- `copyLoop_some`: the loops of a request with a stack of extensions.
- `copyExtensions_exact`: the loops end and the extensions are copied, each object once and with its last value, exactly when
  the request has an extension section.
- `fillCertTemplate_ok`: a template that was filled has the extensions of the request.
- `copyExtensions_broken`: a request without extensions.
Witness: `copyExtensions_exact_replaced`.
-/
import Bboy.Base.Status
import Bboy.Core.MachineInt

namespace Bboy.CertManagement

open Core

/-! ## OpenSSL -/

/-- an `X509_EXTENSION` -/
structure Extension where
  object : List UInt8
  critical : Bool
  value : List UInt8
deriving DecidableEq, Repr

/-- a `STACK_OF(X509_EXTENSION)`; its number of elements is an int -/
structure Stack where
  elems : List Extension
  fits : elems.length < 2 ^ 31

/-- the functions on extensions; a pointer that is NULL is `none` -/
structure OpenSsl where
  /-- sk_X509_EXTENSION_num -/
  skNum : Option Stack → ℤ
  /-- sk_X509_EXTENSION_value -/
  skValue : Option Stack → ℤ → Option Extension
  /-- X509_EXTENSION_get_object -/
  getObject : Option Extension → Option (List UInt8)
  /-- X509_get_ext_by_OBJ from the start: an index, -1, or a crash -/
  getExtByObj : List Extension → Option (List UInt8) → Option ℤ
  /-- X509_delete_ext -/
  deleteExt : List Extension → ℤ → List Extension
  /-- X509_add_ext at the end: its result and the extensions -/
  addExt : List Extension → Option Extension → ℤ × List Extension
  /-- GetOpenSSLErrors -/
  errors : String

/-- the index of the first extension with an object, or -1 -/
def index (x : List Extension) (obj : List UInt8) : ℤ :=
  match x.findIdx? fun e => e.object = obj with
  | some i => i
  | none => -1

structure OpenSsl.Documented (ssl : OpenSsl) : Prop where
  numNull : ssl.skNum none = -1
  num : ∀ s, ssl.skNum (some s) = s.elems.length
  valueNull : ∀ i, ssl.skValue none i = none
  value : ∀ s (i : ℕ) (hi : i < s.elems.length), ssl.skValue (some s) i = some s.elems[i]
  object : ∀ ext, ssl.getObject (some ext) = some ext.object
  getExtByObj : ∀ x obj, ssl.getExtByObj x (some obj) = some (index x obj)
  deleteExt : ∀ x (i : ℕ), i < x.length → ssl.deleteExt x i = x.eraseIdx i
  addNull : ∀ x, (ssl.addExt x none).1 ≤ 0
  -- memory allocation aside
  add : ∀ x ext, ssl.addExt x (some ext) = (1, x ++ [ext])

/-! ## Model -/

variable (ssl : OpenSsl)

/-- the do-while loop -/
def deleteExts (obj : Option (List UInt8)) : ℕ → List Extension → ℤ → Option (List Extension)
  | 0, _, _ => none
  | fuel + 1, x, idx =>
    let x := ssl.deleteExt x idx
    (ssl.getExtByObj x obj).bind fun idx => if idx ≠ -1 then deleteExts obj fuel x idx else some x

/-- "If extension exits, delete all extensions of same type." -/
def deleteSame (fuel : ℕ) (x : List Extension) (obj : Option (List UInt8)) : Option (List Extension) :=
  (ssl.getExtByObj x obj).bind fun idx => if idx ≠ -1 then deleteExts ssl obj fuel x idx else some x

/-- the body of the for loop -/
def copyExt (fuel : ℕ) (exts : Option Stack) (i : ℕ) (x : List Extension) : Option (Status × List Extension) :=
  let ext := ssl.skValue exts (int32 i)
  (deleteSame ssl fuel x (ssl.getObject ext)).map fun x =>
    let r := ssl.addExt x ext
    if r.1 ≤ 0 then (.bad (.runtimeErrorWith "error adding extension" ssl.errors), r.2) else (.ok, r.2)

/-- the for loop from `i` on, which has `n` rounds left: `exts` and its number of elements do not change -/
def copyLoop (fuel : ℕ) (exts : Option Stack) : ℕ → ℕ → List Extension → Option (Status × List Extension)
  | 0, _, x => some (.ok, x)
  | n + 1, i, x =>
    (copyExt ssl fuel exts i x).bind fun r => if r.1 ≠ .ok then some r else copyLoop fuel exts n (i + 1) r.2

/-- the extensions of the request and those of the certificate; the number of elements is compared as a `size_t` -/
def copyExtensions (fuel : ℕ) (exts : Option Stack) (x : List Extension) : Option (Status × List Extension) :=
  copyLoop ssl fuel exts (toSize (ssl.skNum exts)) 0 x

variable {Name Key : Type*}

/-- an `X509_REQ` -/
structure Request (Name Key : Type*) where
  /-- `req_info->pubkey->public_key->data` -/
  publicKeyData : Bool
  pubkey : Option Key
  /-- `X509_REQ_verify` -/
  verify : ℤ
  subject : Name
  exts : Option Stack

/-- an `X509` -/
structure Cert (Name Key : Type*) where
  subject : Option Name
  pubkey : Option Key
  exts : List Extension

/-- `setSubjectName` and `setPubkey` are the results of these calls -/
def fillCertTemplateFromRequest (fuel : ℕ) (req : Request Name Key) (setSubjectName setPubkey : ℤ) (tmpl : Cert Name Key) :
    Option (Status × Cert Name Key) :=
  if req.publicKeyData = false then some (.bad (.runtimeError "corrupted CSR: no public key"), tmpl)
  else
    match req.pubkey with
    | none => some (.bad (.runtimeError "error unpacking public key from CSR"), tmpl)
    | some pubkey =>
      if req.verify < 0 then some (.bad (.runtimeError "CSR signature verification error"), tmpl)
      else if req.verify = 0 then some (.bad (.runtimeError "CSR signature mismatch"), tmpl)
      else if setSubjectName ≤ 0 then
        some (.bad (.runtimeErrorWith "error setting cert subject name" ssl.errors), tmpl)
      else
        (copyExtensions ssl fuel req.exts tmpl.exts).map fun r =>
          let tmpl := { tmpl with subject := some req.subject, exts := r.2 }
          if r.1 ≠ .ok then (r.1, tmpl)
          else if setPubkey ≤ 0 then (.bad (.runtimeErrorWith "error setting cert public key" ssl.errors), tmpl)
          else (.ok, { tmpl with pubkey := some pubkey })

/-! ## Deletion -/

variable {ssl : OpenSsl} {x x' : List Extension} {obj : List UInt8} {fuel : ℕ}

theorem index_none (h : x.findIdx? (fun e => e.object = obj) = none) : index x obj = -1 := by
  rw [index, h]

theorem index_some {i : ℕ} (h : x.findIdx? (fun e => e.object = obj) = some i) : index x obj = i := by
  rw [index, h]

/-- an extension that is not looked for -/
theorem filter_eraseIdx {p : Extension → Bool} {i : ℕ} (hi : i < x.length) (h : p x[i] = false) :
    (x.eraseIdx i).filter p = x.filter p := by
  conv_rhs => rw [← List.take_append_drop i x, List.drop_eq_getElem_cons hi]
  rw [List.eraseIdx_eq_take_drop_succ, List.filter_append, List.filter_append,
    List.filter_cons_of_neg (by simpa using h)]

theorem filter_of_findIdx (h : x.findIdx? (fun e => e.object = obj) = none) :
    x.filter (fun e => e.object ≠ obj) = x := by
  rw [List.findIdx?_eq_none_iff] at h
  exact List.filter_eq_self.2 fun e he => by simpa using h e he

/-- the loop deletes every extension with the object; each round deletes one -/
theorem deleteExts_some (hssl : ssl.Documented) {i : ℕ} (h : x.findIdx? (fun e => e.object = obj) = some i)
    (hfuel : x.length ≤ fuel) : deleteExts ssl (some obj) fuel x i = some (x.filter fun e => e.object ≠ obj) := by
  induction fuel generalizing x i with
  | zero =>
    rw [List.length_eq_zero_iff.1 (Nat.le_zero.1 hfuel)] at h
    cases h
  | succ fuel ih =>
    obtain ⟨hi, hobj, -⟩ := List.findIdx?_eq_some_iff_getElem.1 h
    have hkept : (x.eraseIdx i).filter (fun e => e.object ≠ obj) = x.filter fun e => e.object ≠ obj :=
      filter_eraseIdx hi (by simpa using hobj)
    rw [deleteExts, hssl.deleteExt x i hi, hssl.getExtByObj, Option.bind_some]
    cases hfind : (x.eraseIdx i).findIdx? fun e => e.object = obj with
    | none =>
      rw [index_none hfind, if_neg (by decide), ← hkept, filter_of_findIdx hfind]
    | some j =>
      have hless : (x.eraseIdx i).length ≤ fuel := by
        rw [List.length_eraseIdx_of_lt hi]
        omega
      rw [index_some hfind, if_pos (by omega), ih hfind hless, hkept]

theorem deleteSame_some (hssl : ssl.Documented) (hfuel : x.length ≤ fuel) (obj : List UInt8) :
    deleteSame ssl fuel x (some obj) = some (x.filter fun e => e.object ≠ obj) := by
  rw [deleteSame, hssl.getExtByObj, Option.bind_some]
  cases hfind : x.findIdx? fun e => e.object = obj with
  | none => rw [index_none hfind, if_neg (by decide), filter_of_findIdx hfind]
  | some i => rw [index_some hfind, if_pos (by omega), deleteExts_some hssl hfind hfuel]

/-! ## The for loop -/

/-- an extension of the request replaces those with its object -/
def put (x : List Extension) (ext : Extension) : List Extension := (x.filter fun e => e.object ≠ ext.object) ++ [ext]

theorem length_put_le (x : List Extension) (ext : Extension) : (put x ext).length ≤ x.length + 1 := by
  rw [put, List.length_append]
  exact Nat.add_le_add_right (List.length_filter_le _ _) 1

theorem copyExt_some (hssl : ssl.Documented) (s : Stack) {i : ℕ} (hi : i < s.elems.length) (hfuel : x.length ≤ fuel) :
    copyExt ssl fuel (some s) i x = some (.ok, put x s.elems[i]) := by
  have hint : int32 i = i := int32_of_range (by omega) (by have := s.fits; omega)
  rw [copyExt, hint, hssl.value s i hi, hssl.object, deleteSame_some hssl hfuel, Option.map_some, hssl.add]
  rfl

/-- **The loops** put the extensions one after another. -/
theorem copyLoop_some (hssl : ssl.Documented) (s : Stack) (n i : ℕ) (hn : i + n = s.elems.length)
    (hfuel : x.length + n ≤ fuel) : copyLoop ssl fuel (some s) n i x = some (.ok, (s.elems.drop i).foldl put x) := by
  induction n generalizing i x with
  | zero =>
    rw [List.drop_of_length_le (by omega)]
    rfl
  | succ n ih =>
    have hi : i < s.elems.length := by omega
    have hlength := length_put_le x s.elems[i]
    rw [copyLoop, copyExt_some hssl s hi (by omega), Option.bind_some, if_neg (by simp)]
    dsimp only
    rw [ih (i + 1) (by omega) (by omega), List.drop_eq_getElem_cons hi]
    rfl

/-- the extensions that the request asks for -/
def requested : Option Stack → List Extension
  | none => []
  | some s => s.elems

theorem copyExtensions_some (hssl : ssl.Documented) (s : Stack) (hfuel : x.length + s.elems.length ≤ fuel) :
    copyExtensions ssl fuel (some s) x = some (.ok, s.elems.foldl put x) := by
  have hnum : toSize (ssl.skNum (some s)) = s.elems.length := by
    have hfits := s.fits
    rw [hssl.num]
    unfold toSize
    omega
  rw [copyExtensions, hnum, copyLoop_some hssl s _ 0 (Nat.zero_add _) hfuel]
  rfl

/-- NULL is not added, and the loop is entered -/
theorem copyExtensions_none (hssl : ssl.Documented) (fuel : ℕ) (x : List Extension) :
    copyExtensions ssl fuel none x = (deleteSame ssl fuel x (ssl.getObject none)).map fun x =>
      (.bad (.runtimeErrorWith "error adding extension" ssl.errors), (ssl.addExt x none).2) := by
  have hrounds : toSize (-1) = (2 ^ 64 - 2) + 1 := by
    unfold toSize
    omega
  rw [copyExtensions, hssl.numNull, hrounds, copyLoop, copyExt, hssl.valueNull]
  cases deleteSame ssl fuel x (ssl.getObject none) with
  | none => rfl
  | some x =>
    dsimp only [Option.map_some, Option.bind_some]
    rw [if_pos (hssl.addNull x)]
    exact if_pos Status.noConfusion

/-! ## What is copied -/

/-- each object of the request is there once, with its last value, and the other objects are as before -/
def Copied (exts x x' : List Extension) : Prop :=
  (∀ obj ∈ exts.map Extension.object,
    x'.filter (fun e => e.object = obj) = ((exts.filter fun e => e.object = obj).getLast?).toList) ∧
  (x'.filter fun e => e.object ∉ exts.map Extension.object) = x.filter fun e => e.object ∉ exts.map Extension.object

variable {exts : List Extension}

/-- an extension that is put changes nothing about other objects -/
theorem put_other {q : List UInt8 → Bool} {ext : Extension} (h : q ext.object = false) :
    (put x ext).filter (fun e => q e.object) = x.filter fun e => q e.object := by
  have hsame : ∀ e : Extension, q e.object = true → e.object ≠ ext.object := by
    intro e he heq
    rw [heq, h] at he
    cases he
  rw [put, List.filter_append, List.filter_cons_of_neg (by simp [h]), List.filter_nil, List.append_nil,
    List.filter_filter]
  refine List.filter_congr fun e _ => ?_
  by_cases he : q e.object = true
  · simp [he, hsame e he]
  · simp [he]

theorem put_self (x : List Extension) (ext : Extension) :
    (put x ext).filter (fun e => e.object = ext.object) = [ext] := by
  rw [put, List.filter_append, List.filter_filter]
  simp

theorem foldl_put_other {q : List UInt8 → Bool} (h : ∀ e ∈ exts, q e.object = false) :
    (exts.foldl put x).filter (fun e => q e.object) = x.filter fun e => q e.object := by
  induction exts generalizing x with
  | nil => rfl
  | cons e exts ih =>
    calc ((e :: exts).foldl put x).filter (fun e => q e.object)
        = (put x e).filter (fun e => q e.object) := ih fun e' he' => h e' (List.mem_cons_of_mem e he')
      _ = x.filter fun e => q e.object := put_other (h e List.mem_cons_self)

/-- the last extension with the object stays -/
theorem foldl_put_object (hobj : obj ∈ exts.map Extension.object) :
    (exts.foldl put x).filter (fun e => e.object = obj) = ((exts.filter fun e => e.object = obj).getLast?).toList := by
  induction exts using List.reverseRecOn with
  | nil => cases hobj
  | append_singleton exts e ih =>
    rw [List.foldl_append, List.foldl_cons, List.foldl_nil, List.filter_append]
    by_cases he : e.object = obj
    · subst he
      rw [put_self]
      simp
    · have hother : (put (exts.foldl put x) e).filter (fun e => e.object = obj) =
          (exts.foldl put x).filter fun e => e.object = obj :=
        @put_other _ (fun o => decide (o = obj)) e (by simpa using he)
      have hmem : obj ∈ exts.map Extension.object := by
        rw [List.map_append, List.mem_append] at hobj
        rcases hobj with hobj | hobj
        · exact hobj
        · exact absurd (List.mem_singleton.1 hobj).symm he
      rw [hother, ih hmem]
      simp [he]

theorem copied_foldl (exts x : List Extension) : Copied exts x (exts.foldl put x) := by
  refine ⟨fun obj hobj => foldl_put_object hobj, ?_⟩
  apply @foldl_put_other x exts fun o => decide (o ∉ exts.map Extension.object)
  intro e he
  simpa using ⟨e, he, rfl⟩

theorem copyExtensions_ok (hssl : ssl.Documented) {exts : Option Stack} (hfuel : x.length + (requested exts).length ≤ fuel)
    (h : copyExtensions ssl fuel exts x = some (.ok, x')) : exts ≠ none ∧ Copied (requested exts) x x' := by
  cases exts with
  | none =>
    rw [copyExtensions_none hssl] at h
    obtain ⟨x, -, hbad⟩ := Option.map_eq_some_iff.1 h
    cases hbad
  | some s =>
    rw [copyExtensions_some hssl s hfuel] at h
    cases h
    exact ⟨Option.some_ne_none s, copied_foldl s.elems x⟩

/-- a template is filled only from a request with an extension section, and has its extensions -/
theorem fillCertTemplate_ok (hssl : ssl.Documented) {req : Request Name Key} {setSubjectName setPubkey : ℤ}
    {tmpl tmpl' : Cert Name Key} (hfuel : tmpl.exts.length + (requested req.exts).length ≤ fuel)
    (h : fillCertTemplateFromRequest ssl fuel req setSubjectName setPubkey tmpl = some (.ok, tmpl')) :
    req.exts ≠ none ∧ Copied (requested req.exts) tmpl.exts tmpl'.exts := by
  rw [fillCertTemplateFromRequest] at h
  cases hkey : req.pubkey with
  | none =>
    rw [hkey] at h
    split_ifs at h <;> cases h
  | some pubkey =>
    simp only [hkey] at h
    split_ifs at h
    · cases h
    · cases h
    · cases h
    · cases h
    · obtain ⟨r, hr, hfilled⟩ := Option.map_eq_some_iff.1 h
      split_ifs at hfilled with hok
      · exact absurd (congrArg Prod.fst hfilled) hok
      · cases hfilled
    · obtain ⟨⟨status, x⟩, hr, hfilled⟩ := Option.map_eq_some_iff.1 h
      split_ifs at hfilled with hok
      · exact absurd (congrArg Prod.fst hfilled) hok
      · obtain rfl : status = .ok := not_not.1 hok
        cases hfilled
        exact copyExtensions_ok hssl hfuel hr

/-! ## Main results -/

/-- **The extensions are copied**, with as many rounds of the do-while loop as there may be extensions, exactly if the request
has an extension section. -/
theorem copyExtensions_exact (ssl : OpenSsl) (hssl : ssl.Documented) (exts : Option Stack) (x : List Extension) :
    (∃ x', (∀ fuel, x.length + (requested exts).length ≤ fuel → copyExtensions ssl fuel exts x = some (.ok, x')) ∧
      Copied (requested exts) x x') ↔ exts ≠ none := by
  constructor
  · rintro ⟨x', hcopy, -⟩
    exact (copyExtensions_ok hssl le_rfl (hcopy _ le_rfl)).1
  · intro hsome
    obtain ⟨s, rfl⟩ := Option.ne_none_iff_exists'.1 hsome
    exact ⟨_, fun fuel hfuel => copyExtensions_some hssl s hfuel, copied_foldl s.elems x⟩

/-- OpenSSL: a search for NULL crashes if there is an extension to compare it with -/
def openSsl : OpenSsl where
  skNum
    | none => -1
    | some s => s.elems.length
  skValue exts i := if i < 0 then none else exts.bind fun s => s.elems[i.toNat]?
  getObject := Option.map Extension.object
  getExtByObj
    | x, none => if x = [] then some (-1) else none
    | x, some obj => some (index x obj)
  deleteExt x i := x.eraseIdx i.toNat
  addExt
    | x, none => (0, x)
    | x, some ext => (1, x ++ [ext])
  errors := ""

theorem openSsl_documented : openSsl.Documented where
  numNull := rfl
  num _ := rfl
  valueNull i := by
    change (if i < 0 then none else none) = none
    exact ite_self _
  value s i hi := by
    change (if (i : ℤ) < 0 then none else s.elems[(i : ℤ).toNat]?) = some s.elems[i]
    rw [if_neg (by omega), Int.toNat_natCast, List.getElem?_eq_getElem hi]
  object _ := rfl
  getExtByObj _ _ := rfl
  deleteExt _ _ _ := rfl
  addNull _ := le_rfl
  add _ _ := rfl

def keyUsage (value : List UInt8) : Extension := ⟨[85, 29, 15], true, value⟩

def basicConstraints : Extension := ⟨[85, 29, 19], true, [48, 0]⟩

/-- the key usage comes twice -/
def keyUsageTwice : Stack := ⟨[keyUsage [3], basicConstraints, keyUsage [5]], by decide⟩

/-- a certificate that has a key usage -/
theorem copyExtensions_exact_replaced :
    ∃ x', (∀ fuel, 5 ≤ fuel → copyExtensions openSsl fuel (some keyUsageTwice) [keyUsage [1], ⟨[42], false, [9]⟩] =
        some (.ok, x')) ∧ Copied keyUsageTwice.elems [keyUsage [1], ⟨[42], false, [9]⟩] x' :=
  (copyExtensions_exact openSsl openSsl_documented (some keyUsageTwice) [keyUsage [1], ⟨[42], false, [9]⟩]).2
    (Option.some_ne_none _)

/-- a request without extensions: an error for a new certificate, and a crash for one that has an extension -/
theorem copyExtensions_broken :
    (∀ fuel, copyExtensions openSsl fuel none [] = some (.bad (.runtimeError "error adding extension"), [])) ∧
      ∀ fuel, copyExtensions openSsl fuel none [basicConstraints] = none := by
  constructor
  · intro fuel
    rw [copyExtensions_none openSsl_documented]
    rfl
  · intro fuel
    rw [copyExtensions_none openSsl_documented]
    rfl

end Bboy.CertManagement
