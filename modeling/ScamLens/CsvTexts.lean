import Mathlib.Data.List.Basic
import Mathlib.Data.Nat.Notation

/-!
# Reading comma-separated values

The reader of the `csv` module takes a record from one line after another,
character by character. It gives back the rows of every text that is written
with each field as it is or in quotes.
-/

namespace ScamLens.CsvTexts

/-- A character that ends a line. -/
def isNewline (c : Char) : Bool := c== '\n' || c== '\r'

/-- What a reader takes a text apart at. -/
structure Dialect where
  /-- Between two fields. -/
  delimiter : Char
  /-- Around a field. -/
  quotechar : Char
  /-- No field is longer. -/
  fieldLimit : ℕ
  /-- No character is both. -/
  delimiter_ne : delimiter≠quotechar
  /-- A delimiter ends no line. -/
  delimiter_newline : isNewline delimiter=false
  /-- A quote ends no line. -/
  quotechar_newline : isNewline quotechar=false

/-- Where a reader is in a record. -/
inductive Mode where
  /-- In front of it. -/
  | startRecord
  /-- In front of a field. -/
  | startField
  /-- In a field without quotes. -/
  | inField
  /-- Between the quotes. -/
  | inQuoted
  /-- Behind a quote between the quotes. -/
  | quoteInQuoted
  /-- Behind the record, at the end of the line. -/
  | eatCrnl
  deriving DecidableEq

/-- The state of a reader. -/
structure Reader where
  /-- Where it is. -/
  mode : Mode
  /-- The whole fields of the record. -/
  fields : List (List Char)
  /-- The field under way. -/
  field : List Char

/-- `parse_reset` -/
def Reader.init : Reader := ⟨.startRecord,[],[]⟩

/-- `parse_save_field` -/
def Reader.save (mode : Mode) (r : Reader) : Reader := ⟨mode,r.fields++[r.field],[]⟩

namespace Dialect

variable (d : Dialect)

/-- `parse_add_char`, none for a field that is too long. -/
def add (mode : Mode) (r : Reader) (c : Char) : Option Reader :=
  if r.field.length<d.fieldLimit then some ⟨mode,r.fields,r.field++[c]⟩ else none

/-- A character, or the end of a line, in front of a field. -/
def startField (r : Reader) : Option Char → Option Reader
  | none => some (r.save .startRecord)
  | some c =>
    if isNewline c then some (r.save .eatCrnl)
    else if c=d.quotechar then some {r with mode := .inQuoted}
    else if c=d.delimiter then some (r.save .startField)
    else d.add .inField r c

/-- `parse_process_char`, with none for the end of a line and none when it
raises. -/
def process (r : Reader) (next : Option Char) : Option Reader :=
  match r.mode,next with
  | .startRecord,none => some r
  | .startRecord,some c =>
    if isNewline c then some {r with mode := .eatCrnl} else d.startField r (some c)
  | .startField,next => d.startField r next
  | .inField,none => some (r.save .startRecord)
  | .inField,some c =>
    if isNewline c then some (r.save .eatCrnl)
    else if c=d.delimiter then some (r.save .startField)
    else d.add .inField r c
  | .inQuoted,none => some r
  | .inQuoted,some c =>
    if c=d.quotechar then some {r with mode := .quoteInQuoted} else d.add .inQuoted r c
  | .quoteInQuoted,none => some (r.save .startRecord)
  | .quoteInQuoted,some c =>
    if c=d.quotechar then d.add .inQuoted r c
    else if c=d.delimiter then some (r.save .startField)
    else if isNewline c then some (r.save .eatCrnl)
    else d.add .inField r c
  | .eatCrnl,none => some {r with mode := .startRecord}
  | .eatCrnl,some c => if isNewline c then some r else none

/-- The characters of a line, one after another. -/
def readChars (r : Reader) : List Char → Option Reader
  | [] => some r
  | c::line => (d.process r (some c)).bind fun r => readChars r line

/-- A whole line, its end included. -/
def readLine (r : Reader) (line : List Char) : Option Reader :=
  (d.readChars r line).bind fun r => d.process r none

/-- The rows that are read from the lines, and whether no call raises. A record
goes on behind its line while it is between quotes; at the end of the lines,
what there is of it counts. -/
def rowsFrom (r : Reader) : List (List Char) → List (List (List Char))×Bool
  | [] => (if !r.field.isEmpty || r.mode==.inQuoted then [(r.save .startRecord).fields] else [],
      true)
  | line::lines =>
    match d.readLine r line with
    | none => ([],false)
    | some r =>
      if r.mode=.startRecord then
        let rest := rowsFrom .init lines
        (r.fields::rest.1,rest.2)
      else rowsFrom r lines

/-- `list(csv.reader(lines))` up to the first call that raises. -/
def rows (lines : List (List Char)) : List (List (List Char))×Bool := d.rowsFrom .init lines

/-- A value with each quote twice. -/
def doubled (value : List Char) : List Char :=
  value.flatMap fun c => if c=d.quotechar then [c,c] else [c]

/-- A value, and a form that it is written in. -/
inductive FieldForm : List Char → List Char → Prop where
  /-- As it is. -/
  | plain {value : List Char} (hplain : ∀ c∈value, c≠d.delimiter ∧ isNewline c=false)
      (hquote : ∀ c∈value.head?, c≠d.quotechar) : FieldForm value value
  /-- Between quotes. -/
  | quoted (value : List Char) : FieldForm value (d.quotechar::(d.doubled value++[d.quotechar]))

/-- A row, and a form that it is written in. -/
inductive RowForm : List (List Char) → List Char → Prop where
  /-- A single field. -/
  | single {value form : List Char} (hfield : d.FieldForm value form) : RowForm [value] form
  /-- A field in front of a row. -/
  | cons {value form : List Char} {row : List (List Char)} {line : List Char}
      (hfield : d.FieldForm value form) (hrow : RowForm row line) :
      RowForm (value::row) (form++d.delimiter::line)

/-- A row, and a line that it is read from: nothing, or the form of the row, with
or without the end of the line. -/
inductive LineForm : List (List Char) → List Char → Prop where
  /-- An empty line. -/
  | blank (eol : List Char) (heol : eol=[] ∨ eol=['\n']) : LineForm [] eol
  /-- A line with a row in it. -/
  | row {row : List (List Char)} {form : List Char} (eol : List Char)
      (heol : eol=[] ∨ eol=['\n']) (hrow : d.RowForm row form) (hne : form≠[])
      (hlength : ∀ value∈row, value.length≤d.fieldLimit) : LineForm row (form++eol)

end Dialect

/-- Where the next delimiter ends a field. -/
def Mode.isClosing : Mode → Bool
  | .startField => true
  | .inField => true
  | .quoteInQuoted => true
  | _ => false

section Reading

variable {d : Dialect} {r : Reader} {mode : Mode} {fields : List (List Char)}
  {value form line : List Char}

/-- Two parts of a line are read one after the other. -/
theorem readChars_append (front back : List Char) :
    d.readChars r (front++back)=(d.readChars r front).bind fun r => d.readChars r back := by
  induction front generalizing r with
  | nil => rfl
  | cons c front ih =>
    rw [List.cons_append,Dialect.readChars,Dialect.readChars,Option.bind_assoc]
    exact congrArg _ (funext fun r => ih)

/-- A character that fits is added. -/
theorem add_of_lt {c : Char} (h : value.length<d.fieldLimit) (next : Mode) :
    d.add next ⟨mode,fields,value⟩ c=some ⟨next,fields,value++[c]⟩ := if_pos h

/-- Plain characters are added to a field. -/
theorem readChars_inField {front : List Char}
    (hplain : ∀ c∈value, c≠d.delimiter ∧ isNewline c=false)
    (hlength : (front++value).length≤d.fieldLimit) :
    d.readChars ⟨.inField,fields,front⟩ value=some ⟨.inField,fields,front++value⟩ := by
  induction value generalizing front with
  | nil => rw [List.append_nil,Dialect.readChars]
  | cons c value ih =>
    have hc := hplain c List.mem_cons_self
    have hassoc : front++c::value=front++[c]++value := (List.append_assoc front [c] value).symm
    have hfront : front.length<d.fieldLimit := by
      rw [List.length_append,List.length_cons] at hlength
      omega
    have hstep : d.process ⟨.inField,fields,front⟩ (some c)=
        some ⟨.inField,fields,front++[c]⟩ := by
      simp [Dialect.process,hc.1,hc.2,add_of_lt hfront]
    rw [hassoc] at hlength ⊢
    rw [Dialect.readChars,hstep]
    exact ih (fun x hx => hplain x (List.mem_cons_of_mem c hx)) hlength

/-- Between the quotes, a doubled quote is a quote. -/
theorem readChars_doubled (front : List Char) (hlength : (front++value).length≤d.fieldLimit) :
    d.readChars ⟨.inQuoted,fields,front⟩ (d.doubled value)=
      some ⟨.inQuoted,fields,front++value⟩ := by
  induction value generalizing front with
  | nil => rw [List.append_nil,Dialect.doubled,List.flatMap_nil,Dialect.readChars]
  | cons c value ih =>
    have hassoc : front++c::value=front++[c]++value := (List.append_assoc front [c] value).symm
    have hfront : front.length<d.fieldLimit := by
      rw [List.length_append,List.length_cons] at hlength
      omega
    have hfirst : d.readChars ⟨.inQuoted,fields,front⟩
        (if c=d.quotechar then [c,c] else [c])=some ⟨.inQuoted,fields,front++[c]⟩ := by
      by_cases hquote : c=d.quotechar
      · simp [hquote,Dialect.readChars,Dialect.process,add_of_lt hfront]
      · simp [hquote,Dialect.readChars,Dialect.process,add_of_lt hfront]
    rw [hassoc] at hlength ⊢
    rw [Dialect.doubled,List.flatMap_cons,readChars_append,hfirst]
    exact ih _ hlength

/-- A field is read from its form; an empty form leaves the reader where it is. -/
theorem readChars_form (fields : List (List Char)) (hform : d.FieldForm value form)
    (hlength : value.length≤d.fieldLimit) (hmode : mode=.startRecord ∨ mode=.startField) :
    ∃ next, d.readChars ⟨mode,fields,[]⟩ form=some ⟨next,fields,value⟩ ∧
      (next.isClosing=true ∨ form=[] ∧ next=.startRecord) := by
  have hstart (c : Char) (hc : isNewline c=false) :
      d.process ⟨mode,fields,[]⟩ (some c)=d.startField ⟨mode,fields,[]⟩ (some c) := by
    rcases hmode with rfl | rfl
    · simp [Dialect.process,hc]
    · rfl
  cases hform with
  | plain hplain hquote =>
    cases value with
    | nil =>
      refine ⟨mode,rfl,?_⟩
      rcases hmode with rfl | rfl
      · exact .inr ⟨rfl,rfl⟩
      · exact .inl rfl
    | cons c value =>
      have hc := hplain c List.mem_cons_self
      have hne := hquote c rfl
      have hzero : ([] : List Char).length<d.fieldLimit := by
        rw [List.length_cons] at hlength
        rw [List.length_nil]
        omega
      refine ⟨.inField,?_,.inl rfl⟩
      rw [Dialect.readChars,hstart c hc.2]
      simp only [Dialect.startField,hc.1,hc.2,hne,if_false,add_of_lt hzero,Option.bind_some,
        Bool.false_eq_true]
      exact readChars_inField (fun x hx => hplain x (List.mem_cons_of_mem c hx)) hlength
  | quoted =>
    have hopen : d.process ⟨mode,fields,[]⟩ (some d.quotechar)=some ⟨.inQuoted,fields,[]⟩ := by
      rw [hstart _ d.quotechar_newline]
      simp [Dialect.startField,d.quotechar_newline]
    refine ⟨.quoteInQuoted,?_,.inl rfl⟩
    rw [Dialect.readChars,hopen,Option.bind_some,readChars_append,
      readChars_doubled [] hlength]
    simp [Dialect.readChars,Dialect.process]

/-- A delimiter ends a field. -/
theorem process_delimiter (fields : List (List Char)) (value : List Char)
    (h : mode.isClosing=true ∨ mode=.startRecord) :
    d.process ⟨mode,fields,value⟩ (some d.delimiter)=some ⟨.startField,fields++[value],[]⟩ := by
  have hne := d.delimiter_ne
  have hline := d.delimiter_newline
  cases mode with
  | startRecord => simp [Dialect.process,Dialect.startField,hline,hne,Reader.save]
  | startField => simp [Dialect.process,Dialect.startField,hline,hne,Reader.save]
  | inField => simp [Dialect.process,hline,Reader.save]
  | quoteInQuoted => simp [Dialect.process,hne,Reader.save]
  | inQuoted => simp [Mode.isClosing] at h
  | eatCrnl => simp [Mode.isClosing] at h

/-- The end of a line, written or not, ends the last field and the record. -/
theorem readLine_eol (fields : List (List Char)) (value : List Char) {eol : List Char}
    (heol : eol=[] ∨ eol=['\n']) (h : mode.isClosing=true) :
    d.readLine ⟨mode,fields,value⟩ eol=some ⟨.startRecord,fields++[value],[]⟩ := by
  have hline : isNewline '\n'=true := rfl
  have hdelimiter : '\n'≠d.delimiter := by
    rintro heq
    have := d.delimiter_newline
    rw [← heq,hline] at this
    cases this
  have hquote : '\n'≠d.quotechar := by
    rintro heq
    have := d.quotechar_newline
    rw [← heq,hline] at this
    cases this
  rcases heol with rfl | rfl
  · cases mode <;>
      simp_all [Mode.isClosing,Dialect.readLine,Dialect.readChars,Dialect.process,
        Dialect.startField,Reader.save]
  · cases mode <;>
      simp_all [Mode.isClosing,Dialect.readLine,Dialect.readChars,Dialect.process,
        Dialect.startField,Reader.save]

/-- The fields of a row are read from its form, the last one up to the end. -/
theorem readChars_row (fields : List (List Char)) {row : List (List Char)}
    (hrow : d.RowForm row line)
    (hlength : ∀ value∈row, value.length≤d.fieldLimit)
    (hmode : mode=.startRecord ∧ line≠[] ∨ mode=.startField) :
    ∃ next front last, d.readChars ⟨mode,fields,[]⟩ line=some ⟨next,front,last⟩ ∧
      next.isClosing=true ∧ front++[last]=fields++row := by
  induction hrow generalizing mode fields with
  | single hfield =>
    obtain ⟨next,hread,hnext⟩ := readChars_form fields hfield (hlength _ List.mem_cons_self)
      (hmode.imp And.left id)
    refine ⟨next,fields,_,hread,?_,rfl⟩
    rcases hnext with hnext | ⟨hempty,rfl⟩
    · exact hnext
    · rcases hmode with hmode | rfl
      · exact absurd hempty hmode.2
      · rw [hempty,Dialect.readChars] at hread
        cases hread
  | @cons value form row line hfield hrow ih =>
    obtain ⟨next,hread,hnext⟩ := readChars_form fields hfield (hlength _ List.mem_cons_self)
      (hmode.imp And.left id)
    have hdelimiter := process_delimiter (d := d) fields value (hnext.imp id And.right)
    obtain ⟨next',front,last,hrest,hclosing,hfields⟩ := @ih .startField
      (fields++[value]) (fun v hv => hlength v (List.mem_cons_of_mem _ hv)) (.inr rfl)
    refine ⟨next',front,last,?_,hclosing,?_⟩
    · rw [readChars_append,hread,Option.bind_some,Dialect.readChars,hdelimiter]
      exact hrest
    · rw [hfields,List.append_assoc,List.singleton_append]

/-- A row is read from its line. -/
theorem readLine_form {row : List (List Char)} (h : d.LineForm row line) :
    d.readLine .init line=some ⟨.startRecord,row,[]⟩ := by
  cases h with
  | blank _ heol =>
    rcases heol with rfl | rfl
    · rfl
    · rfl
  | row eol heol hrow hne hlength =>
    obtain ⟨next,front,last,hread,hclosing,hfields⟩ := readChars_row [] hrow hlength
      (.inl ⟨rfl,hne⟩)
    have hend := readLine_eol (d := d) front last heol hclosing
    rw [Dialect.readLine,readChars_append]
    change ((d.readChars ⟨.startRecord,[],[]⟩ _).bind _).bind _=_
    rw [hread,Option.bind_some,← Dialect.readLine,hend,hfields,List.nil_append]

/-- The reader gives back the rows that were written, each one in a line. -/
theorem rows_of_forms {table : List (List (List Char))} {lines : List (List Char)}
    (h : List.Forall₂ d.LineForm table lines) : d.rows lines=(table,true) := by
  rw [Dialect.rows]
  induction h with
  | nil => rfl
  | cons hline _ ih =>
    rw [Dialect.rowsFrom,readLine_form hline]
    dsimp only
    rw [if_pos rfl,ih]

end Reading

end ScamLens.CsvTexts
