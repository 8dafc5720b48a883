import ScamLens.DohRequests

/-!
# The key that browsers subscribe with

The key is written once as URL-safe base 64 without padding, served by the API,
and read by the browser, whose decoder is strict where that of Python is lenient.
On texts of digits the two agree, so a browser subscribes with the bytes that
were written.
-/

namespace ScamLens.PushKeys

open Base64Texts DohBindings DohRequests PythonText

/-- `b64url` of `gen_vapid`. -/
def b64url (data : List UInt8) : Text := rstripChar '=' (urlsafeBase64 data)

/-- The number of a digit in the standard alphabet. -/
def standardValue (c : Char) : Option ℕ :=
  let n := c.toNat
  if 65≤n ∧ n≤90 then some (n-65)
  else if 97≤n ∧ n≤122 then some (n-71)
  else if 48≤n ∧ n≤57 then some (n+4)
  else if c = '+' then some 62
  else if c = '/' then some 63
  else none

/-- White space that `atob` passes over. -/
def isAsciiSpace (c : Char) : Bool :=
  c == '\t' || c == '\n' || c == '\x0c' || c == '\r' || c == ' '

/-- A text without one or two padding signs at its end. -/
def dropPadding (s : Text) : Text :=
  match s.reverse with
  | '=' :: '=' :: rest => rest.reverse
  | '='::rest => rest.reverse
  | _ => s

/-- `atob`, none when it throws. -/
def atob (s : Text) : Option (List UInt8) :=
  let s := s.filter fun c => !isAsciiSpace c
  let s := if s.length%4=0 then dropPadding s else s
  if s.length%4=1 then none else (s.mapM standardValue).map bytesOf

/-- A sign of the URL-safe alphabet as the one of the standard alphabet. -/
def standardSign (c : Char) : Char := if c = '-' then '+' else if c = '_' then '/' else c

/-- `_urlBase64ToUint8Array`, none when it throws. -/
def urlBase64ToUint8Array (base64String : Text) : Option (List UInt8) :=
  atob ((base64String++List.replicate (padding base64String.length) '=').map standardSign)

section Reading

/-- Both readers give a digit the same number. -/
theorem standardValue_standardSign (c : Char) : standardValue (standardSign c)=urlsafeValue c := by
  rw [standardSign]
  split
  · rename_i h
    rw [h]
    rfl
  split
  · rename_i h
    rw [h]
    rfl
  rename_i hminus hline
  simp only [standardValue,urlsafeValue,hminus,hline,or_false]

/-- What has a number is no white space and no padding sign. -/
theorem digit_of_value {c : Char} {v : ℕ} (h : standardValue c=some v) :
    isAsciiSpace c=false ∧ c≠ '=' := by
  have hspace : ∀ d∈['\t','\n','\x0c','\r',' ','='], standardValue d=none := by decide
  have hother : ∀ d∈['\t','\n','\x0c','\r',' ','='], c≠d := by
    rintro d hd rfl
    rw [hspace c hd] at h
    cases h
  refine ⟨?_,hother '=' (by decide)⟩
  simp only [isAsciiSpace,Bool.or_eq_false_iff,beq_eq_false_iff_ne]
  exact ⟨⟨⟨⟨hother _ (by decide),hother _ (by decide)⟩,hother _ (by decide)⟩,
    hother _ (by decide)⟩,hother _ (by decide)⟩

/-- Two padding signs are dropped at most. -/
theorem dropPadding_append {front : Text} (h : '='∉front) (k : ℕ) :
    dropPadding (front++List.replicate k '=')=front++List.replicate (k-2) '=' := by
  have hfront : ∀ c rest, front.reverse=c::rest → c≠ '=' := by
    rintro c rest hrev rfl
    exact h (List.mem_reverse.mp (hrev ▸ List.mem_cons_self))
  rw [dropPadding,List.reverse_append,List.reverse_replicate]
  match k with
  | 0 =>
    rw [List.replicate_zero,List.nil_append,List.append_nil]
    cases hrev : front.reverse with
    | nil => rfl
    | cons c rest =>
      have hc := hfront c rest hrev
      split
      · rename_i heq
        exact absurd (List.cons_eq_cons.mp heq).1 hc
      · rename_i heq
        exact absurd (List.cons_eq_cons.mp heq).1 hc
      · rfl
  | 1 =>
    change (match '='::front.reverse with
      | '=' :: '=' :: rest => rest.reverse
      | '='::rest => rest.reverse
      | _ => _)=front++[]
    rw [List.append_nil]
    split
    · rename_i heq
      exact absurd rfl (hfront _ _ (List.cons_eq_cons.mp heq).2)
    · rename_i rest _ heq
      rw [←(List.cons_eq_cons.mp heq).2,List.reverse_reverse]
    · rename_i _ hno
      exact (hno _ rfl).elim
  | k+2 =>
    change (List.replicate k '='++front.reverse).reverse=_
    rw [List.reverse_append,List.reverse_reverse,List.reverse_replicate,Nat.add_sub_cancel]

/-- The numbers of digits are read one by one. -/
theorem mapM_values {s : Text} (h : ∀ c∈s, (standardValue c).isSome=true) :
    s.mapM standardValue=some (s.map fun c => (standardValue c).getD 0) := by
  induction s with
  | nil => rfl
  | cons c s ih =>
    obtain ⟨v,hv⟩ := Option.isSome_iff_exists.mp (h c List.mem_cons_self)
    rw [List.mapM_cons,hv,ih fun d hd => h d (List.mem_cons_of_mem c hd),List.map_cons,hv]
    rfl

/-- What Python makes of digits. -/
theorem urlsafeB64decode_digits {s : Text} (h : ∀ c∈s, (urlsafeValue c).isSome=true) :
    urlsafeB64decode (padB64 s)=if s.length%4=1 then none
      else some (bytesOf (s.map fun c => (urlsafeValue c).getD 0)) := by
  have hascii : (padB64 s).all (fun c => c.toNat<128)=true := by
    refine List.all_eq_true.mpr fun c hc => decide_eq_true ?_
    rcases List.mem_append.mp hc with hc | hc
    · by_contra hbig
      obtain ⟨v,hv⟩ := Option.isSome_iff_exists.mp (h c hc)
      have hminus : c≠ '-' := fun heq => hbig (heq ▸ by decide)
      have hline : c≠ '_' := fun heq => hbig (heq ▸ by decide)
      have hplus : c≠ '+' := fun heq => hbig (heq ▸ by decide)
      have hslash : c≠ '/' := fun heq => hbig (heq ▸ by decide)
      have hupper : ¬(65 ≤ c.toNat ∧ c.toNat ≤ 90) := by omega
      have hlower : ¬(97 ≤ c.toNat ∧ c.toNat ≤ 122) := by omega
      have hdecimal : ¬(48 ≤ c.toNat ∧ c.toNat ≤ 57) := by omega
      simp only [urlsafeValue,hupper,hlower,hdecimal,hminus,hline,hplus,hslash,or_self,
        if_false] at hv
      cases hv
    · rw [List.eq_of_mem_replicate hc]
      decide
  have hdigits : ∀ digit∈s.map fun c => (c,(urlsafeValue c).getD 0),
      digit.1≠ '=' ∧ urlsafeValue digit.1=some digit.2 := by
    intro digit hmem
    obtain ⟨c,hc,rfl⟩ := List.mem_map.mp hmem
    obtain ⟨v,hv⟩ := Option.isSome_iff_exists.mp (h c hc)
    refine ⟨?_,by rw [hv,Option.getD_some]⟩
    rintro rfl
    cases hv
  have hread := a2bFrom_digits _ hdigits 0
  rw [List.map_map,List.map_map,List.length_map] at hread
  have hsame : s.map (Prod.fst∘fun c => (c,(urlsafeValue c).getD 0))=s := List.map_id s
  rw [hsame] at hread
  rw [urlsafeB64decode,if_pos hascii,a2bBase64,padB64,hread]
  rfl

/-- What the browser makes of digits. -/
theorem urlBase64ToUint8Array_digits {s : Text} (h : ∀ c∈s, (urlsafeValue c).isSome=true) :
    urlBase64ToUint8Array s=if s.length%4=1 then none
      else some (bytesOf (s.map fun c => (urlsafeValue c).getD 0)) := by
  have hvalue : ∀ c∈s.map standardSign, (standardValue c).isSome=true := by
    intro c hc
    obtain ⟨d,hd,rfl⟩ := List.mem_map.mp hc
    rw [standardValue_standardSign]
    exact h d hd
  have hdigit : ∀ c∈s.map standardSign, isAsciiSpace c=false ∧ c≠ '=' := by
    intro c hc
    obtain ⟨v,hv⟩ := Option.isSome_iff_exists.mp (hvalue c hc)
    exact digit_of_value hv
  have hplain : '='∉s.map standardSign := fun hmem => (hdigit _ hmem).2 rfl
  have hlength : (s.map standardSign).length=s.length := List.length_map _
  have hpad : standardSign '=' = '=' := by decide
  have hkept : ((s++List.replicate (padding s.length) '=').map standardSign).filter
      (fun c => !isAsciiSpace c)=
        s.map standardSign++List.replicate (padding s.length) '=' := by
    rw [List.map_append,List.map_replicate,hpad,List.filter_eq_self]
    intro c hc
    rcases List.mem_append.mp hc with hc | hc
    · rw [(hdigit c hc).1]
      rfl
    · rw [List.eq_of_mem_replicate hc]
      decide
  have hquads : (s.map standardSign++List.replicate (padding s.length) '=').length%4=0 := by
    rw [List.length_append,hlength,List.length_replicate,padding]
    omega
  rw [urlBase64ToUint8Array,atob,hkept,if_pos hquads,dropPadding_append hplain,List.length_append,
    hlength,List.length_replicate]
  by_cases hone : s.length%4=1
  · -- one digit is over, and a padding sign is left
    have hpadding : padding s.length=3 := by
      rw [padding]
      omega
    have hmore : ¬(s.length+(padding s.length-2))%4=1 := by omega
    have hthrows : (s.map standardSign++['=']).mapM standardValue=none := by
      rw [List.mapM_append,mapM_values hvalue]
      rfl
    rw [if_pos hone,if_neg hmore,hpadding]
    exact congrArg (Option.map bytesOf) hthrows
  · have hpadding : padding s.length-2=0 := by
      rw [padding]
      omega
    rw [hpadding,Nat.add_zero,if_neg hone,if_neg hone,List.replicate_zero,List.append_nil,
      mapM_values hvalue,Option.map_some,List.map_map]
    refine congrArg (some∘bytesOf) (List.map_congr_left fun c _ => ?_)
    rw [Function.comp_apply,standardValue_standardSign]

/-- A key is written in digits. -/
theorem isSome_b64url (data : List UInt8) : ∀ c∈b64url data, (urlsafeValue c).isSome=true := by
  rw [b64url,rstripChar_urlsafeBase64]
  intro c hc
  obtain ⟨n,hn,rfl⟩ := List.mem_map.mp hc
  rw [(digits_urlsafe n (sextets_lt data n hn)).2]
  rfl

/-- The browser reads a text of URL-safe digits as Python does, and throws where
Python raises; so it subscribes with the bytes that were written, and no two
keys are written alike. -/
theorem browser_reads_key :
    (∀ s, (∀ c∈s, (urlsafeValue c).isSome=true) →
      urlBase64ToUint8Array s=urlsafeB64decode (padB64 s)) ∧
    (∀ data, urlBase64ToUint8Array (b64url data)=some data) ∧
    Function.Injective b64url := by
  have hagree : ∀ s, (∀ c∈s, (urlsafeValue c).isSome=true) →
      urlBase64ToUint8Array s=urlsafeB64decode (padB64 s) := fun s hs =>
    (urlBase64ToUint8Array_digits hs).trans (urlsafeB64decode_digits hs).symm
  have hread : ∀ data, urlBase64ToUint8Array (b64url data)=some data := by
    intro data
    rw [hagree _ (isSome_b64url data),b64url,rstripChar_urlsafeBase64,padB64_digitsOf,
      urlsafeB64decode_urlsafeBase64]
  refine ⟨hagree,hread,fun first second heq => ?_⟩
  have hboth := hread first
  rw [heq,hread second] at hboth
  exact (Option.some.inj hboth).symm

end Reading

end ScamLens.PushKeys
