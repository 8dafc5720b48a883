import ScamLens.PythonText

/-!
# Domains as the API accepts them

The admin forms, the report form and the path parameters normalize a domain
before it becomes a key. A host name in canonical spelling is left alone by
each of them.
-/

namespace ScamLens.DomainEntries

open PythonText

/-- `v[len(p):]` if `v.startswith(p)`, else `v`. -/
def dropPrefix (p v : Text) : Text := if p.isPrefixOf v then v.drop p.length else v

/-- Both scheme prefixes, in the order the validators drop them. -/
def dropScheme (v : Text) : Text := dropPrefix "http://".toList (dropPrefix "https://".toList v)

/-- `v.split("/")[0].split("?")[0]` -/
def hostPart (v : Text) : Text := (((v.splitOn '/').headD []).splitOn '?').headD []

/-- `Field(..., min_length=3, max_length=253)` -/
def lengthOk (raw : Text) : Bool := 3 ≤ raw.length && raw.length≤253

/-- `Field(None, max_length=500)` -/
def noteOk (note : Option Text) : Bool := note.all fun text => text.length≤500

/-- `DomainEntry`: the domain a list form is accepted for, none when it is
rejected. -/
def domainEntry (raw : Text) (reason : Option Text) : Option Text :=
  let v := hostPart (dropScheme (rstripChar '.' (lower (strip raw))))
  if lengthOk raw && noteOk reason && v.contains '.' && !v.contains ' ' then some v else none

/-- `ReportRequest`: the domain a report is accepted for. -/
def reportDomain (raw : Text) (note : Option Text) : Option Text :=
  let v := rstripChar '.' (hostPart (dropScheme (lower (strip raw))))
  if lengthOk raw && noteOk note && v.contains '.' && !v.contains ' ' then some v else none

/-- The key a path parameter stands for. -/
def pathDomain (raw : Text) : Text := rstripChar '.' (lower (strip raw))

/-- The code points of a canonical label. -/
def isHostChar (c : Char) : Bool := c.isLower || c.isDigit || c == '-'

/-- A test of all code points of a name. -/
theorem hostChars_of_all {name : Text} (h : name.all (fun c => c= '.' || isHostChar c)=true) :
    ∀ c∈name, c = '.' ∨ isHostChar c=true := by
  intro c hc
  have hchar := List.all_eq_true.mp h c hc
  rwa [Bool.or_eq_true,decide_eq_true_eq] at hchar

/-- A host name in canonical spelling: lower-case labels, at least two of them. -/
structure HostName where
  /-- The name. -/
  name : Text
  /-- Labels are letters, digits and hyphens. -/
  chars : ∀ c∈name, c = '.' ∨ isHostChar c=true
  /-- No label is empty. -/
  labels : []∉name.splitOn '.'
  /-- There are at least two labels. -/
  dotted : '.'∈name
  /-- Names are no longer than the domain name system allows. -/
  short : name.length≤253

section Canonical

/-- The code points of a canonical name by number. -/
theorem canonical_toNat {c : Char} (h : c = '.' ∨ isHostChar c=true) :
    c.toNat=46 ∨ (97 ≤ c.toNat ∧ c.toNat≤122) ∨ (48 ≤ c.toNat ∧ c.toNat≤57) ∨ c.toNat=45 := by
  rcases h with rfl|h
  · exact Or.inl rfl
  · simp only [isHostChar,Bool.or_eq_true,beq_iff_eq] at h
    rcases h with (h|h)|rfl
    · have hbounds : (decide (97 ≤ c.toNat) && decide (c.toNat≤122))=true := h
      simp only [Bool.and_eq_true,decide_eq_true_eq] at hbounds
      exact Or.inr (Or.inl hbounds)
    · have hbounds : (decide (48 ≤ c.toNat) && decide (c.toNat≤57))=true := h
      simp only [Bool.and_eq_true,decide_eq_true_eq] at hbounds
      exact Or.inr (Or.inr (Or.inl hbounds))
    · exact Or.inr (Or.inr (Or.inr rfl))

/-- Code points of a canonical name are no capitals. -/
theorem canonical_toLower {c : Char} (h : c = '.' ∨ isHostChar c=true) : c.toLower=c := by
  have hn := canonical_toNat h
  rcases toLower_cases c with hself|⟨h65,h90,-⟩
  · exact hself
  · omega

/-- Lower-casing leaves the code points of a canonical name alone. -/
theorem canonical_lowerChar {c : Char} (h : c = '.' ∨ isHostChar c=true) : lowerChar c=[c] := by
  have hn := canonical_toNat h
  rw [lowerChar_ascii (by omega),canonical_toLower h]

/-- No code point of a canonical name is white space. -/
theorem canonical_isSpace {c : Char} (h : c = '.' ∨ isHostChar c=true) : isSpace c=false := by
  have hn := canonical_toNat h
  exact isSpace_eq_false (by omega) (by omega)

/-- A name without empty labels does not end with a dot. -/
theorem getLast_ne_dot {name : Text} (h : []∉name.splitOn '.') (hne : name≠[]) :
    name.getLast hne≠ '.' := by
  intro he
  have hsplit : name=name.dropLast++ '.'::[] := by
    rw [←he,List.dropLast_append_getLast hne]
  rw [hsplit,List.splitOn_append_cons_self,List.mem_append,not_or] at h
  exact h.2 (List.mem_singleton_self [])

variable (d : HostName)

/-- A canonical name has labels in front of and behind each of its dots. -/
theorem HostName.ne_nil_of_split {first rest : Text} (h : d.name=first++ '.'::rest) :
    first≠[] ∧ rest≠[] := by
  have hlabels := d.labels
  rw [h,List.splitOn_append_cons_self,List.mem_append,not_or] at hlabels
  refine ⟨fun he => hlabels.1 ?_,fun he => hlabels.2 ?_⟩ <;>
    rw [he] <;> exact List.mem_singleton_self []

theorem HostName.three_le_length : 3≤d.name.length := by
  obtain ⟨first,rest,h⟩ := List.append_of_mem d.dotted
  obtain ⟨hf,hr⟩ := d.ne_nil_of_split h
  have hfl := List.length_pos_iff.mpr hf
  have hrl := List.length_pos_iff.mpr hr
  rw [h,List.length_append,List.length_cons]
  omega

/-- A canonical name does not contain any other code point. -/
theorem HostName.not_mem {c : Char} (h : ¬(c = '.' ∨ isHostChar c=true)) : c∉d.name :=
  fun hc => h (d.chars c hc)

theorem HostName.lower_name : lower d.name=d.name :=
  lower_eq_self fun c hc => canonical_lowerChar (d.chars c hc)

theorem HostName.strip_name : strip d.name=d.name :=
  strip_eq_self fun c hc => canonical_isSpace (d.chars c hc)

theorem HostName.rstrip_name : rstripChar '.' d.name=d.name :=
  rstripChar_eq_self fun hne => getLast_ne_dot d.labels hne

theorem dropPrefix_eq_self {p v : Text} {c : Char} (hp : c∈p) (hv : c∉v) : dropPrefix p v=v := by
  rw [dropPrefix,if_neg]
  intro h
  exact hv ((List.isPrefixOf_iff_prefix.mp h).subset hp)

theorem HostName.dropScheme_name : dropScheme d.name=d.name := by
  have hcolon : ':'∉d.name := d.not_mem (by decide)
  have hhttps : dropPrefix "https://".toList d.name=d.name :=
    dropPrefix_eq_self (by decide) hcolon
  rw [dropScheme,hhttps]
  exact dropPrefix_eq_self (by decide) hcolon

theorem HostName.hostPart_name : hostPart d.name=d.name := by
  rw [hostPart,List.splitOn_eq_singleton (d.not_mem (by decide)),List.headD_cons]
  rw [List.splitOn_eq_singleton (d.not_mem (by decide)),List.headD_cons]

/-- The list forms accept a canonical name as it is. -/
theorem domainEntry_canonical {reason : Option Text} (h : noteOk reason=true) :
    domainEntry d.name reason=some d.name := by
  have hdot : d.name.contains '.'=true := List.contains_iff_mem.mpr d.dotted
  have hspace : d.name.contains ' '=false := by
    rw [Bool.eq_false_iff,ne_eq,List.contains_iff_mem]
    exact d.not_mem (by decide)
  have hlength : lengthOk d.name=true := by
    rw [lengthOk,decide_eq_true d.three_le_length,decide_eq_true d.short]
    rfl
  rw [domainEntry,d.strip_name,d.lower_name,d.rstrip_name,d.dropScheme_name,d.hostPart_name,
    hlength,h,hdot,hspace]
  rfl

end Canonical

end ScamLens.DomainEntries
