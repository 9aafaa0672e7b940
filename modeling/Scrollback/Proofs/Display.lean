import Scrollback.Assembler
import Scrollback.Proofs.Text.Quoted
import Scrollback.Proofs.Text.Utf8
/-!
# What the display forms tell

A record is shown in one of two forms. The form starts with a quote or with a bracket, so it says
itself which of the two it is, and each of them is prefix-free: a quoted text ends with its quote, a
list of numbers with its bracket. Whether a record is shown as text is decided by its bytes alone,
and the bytes are those of the text. So a record is told by its display form, also where something
follows, which is why whole lists of records are told as well.

All this holds for any way to quote a text that is prefix-free and starts with the quote, in
particular whatever characters are hidden (`display_tellsApart`).
-/

namespace Scrollback

/-! ### The forms -/

namespace Record

/-- A quoted text with what stands around it. -/
def quotedBetween (front back : String) (quote : List Char → List Char) (text : List Char) :
    String :=
  front ++ String.ofList (quote text) ++ back

/-- The form of a record that is text. -/
def quotedForm (quote : List Char → List Char) : List Char → String :=
  quotedBetween "Record(" ")" quote

/-- The form of any other record. -/
def listedForm (bytes : Bytes) : String :=
  "Record([" ++ ", ".intercalate (bytes.map (toString ·.toNat)) ++ "])"

def quotedLines (quote : List Char → List Char) : List Char → String :=
  quotedBetween "Record(\n    " ",\n)" quote

/-- A byte on a line of its own. -/
def byteLine (b : UInt8) : String :=
  "        " ++ toString b.toNat ++ ",\n"

def listedLines (bytes : Bytes) : String :=
  "Record(\n    [\n" ++ String.join (bytes.map byteLine) ++ "    ],\n)"

/-- A record in the form for texts or in that for other bytes. -/
def shownBy (quoted : List Char → String) (listed : Bytes → String) (r : Record) : String :=
  match Utf8.decode? r.bytes with
  | some text => quoted text
  | none => listed r.bytes

/-- The display form with a given way to quote. -/
def displayWith (quote : List Char → List Char) : Record → String :=
  shownBy (quotedForm quote) listedForm

def displayLinesWith (quote : List Char → List Char) : Record → String :=
  shownBy (quotedLines quote) listedLines

theorem display_eq : display = displayWith Quoted.quote := by
  funext r
  unfold display displayWith shownBy
  cases Utf8.decode? r.bytes <;> rfl

theorem displayLines_eq : displayLines = displayLinesWith Quoted.quote := by
  funext r
  unfold displayLines displayLinesWith shownBy
  cases Utf8.decode? r.bytes with
  | some text => rfl
  | none =>
    simp only [listedLines, decimals, List.map_map]
    rfl

end Record

namespace Assembly

/-- The form of some records that are shown. -/
def listForm (records : List String) : String :=
  "Complete([" ++ ", ".intercalate records ++ "])"

/-- A record that is shown, as one item of a list over several lines. -/
def itemLines (record : String) : String :=
  String.ofList (Indented.indent (Indented.indent record.toList)) ++ ",\n"

def listLines : List String → String
  | [] => "Complete(\n    [],\n)"
  | records => "Complete(\n    [\n" ++ String.join (records.map itemLines) ++ "    ],\n)"

/-- An assembly with a form for its records and one for their list. -/
def shownBy (listed : List String → String) (record : Record → String) : Assembly → String
  | incomplete => "Incomplete"
  | complete records => listed (records.map record)

def displayWith (quote : List Char → List Char) : Assembly → String :=
  shownBy listForm (Record.displayWith quote)

def displayLinesWith (quote : List Char → List Char) : Assembly → String :=
  shownBy listLines (Record.displayLinesWith quote)

theorem display_eq : display = displayWith Quoted.quote := by
  rw [displayWith, ← Record.display_eq]
  funext x
  cases x <;> rfl

theorem displayLines_eq : displayLines = displayLinesWith Quoted.quote := by
  rw [displayLinesWith, ← Record.displayLines_eq]
  funext x
  match x with
  | incomplete => rfl
  | complete [] => rfl
  | complete (r :: records) => simp [displayLines, shownBy, listLines, itemLines, Function.comp_def]

end Assembly

/-! ### Numbers in a list -/

theorem splitsOff_byte :
    SplitsOff (StopsAt (IsDigitOf 10)) fun b : UInt8 => Nat.toDigits 10 b.toNat :=
  (splitsOff_toDigits (by decide) (by decide)).comp fun _ _ => UInt8.toNat_inj.1

/-- Only decimal digits are digits of base ten. -/
theorem not_isDigitOf_ten {c : Char} (h : c.isDigit = false) : ¬ IsDigitOf 10 c := by
  have hdigits : ∀ digit < 10, digit.digitChar.isDigit = true := by decide
  rintro ⟨digit, hdigit, rfl⟩
  rw [hdigits digit hdigit] at h
  cases h

/-! ### Indented text -/

theorem indentChar_prefixFree : PrefixFree Indented.indentChar := by
  intro c d rest rest' heq
  unfold Indented.indentChar at heq
  split at heq
  next hc =>
    split at heq
    next hd => exact ⟨hc.trans hd.symm, List.append_cancel_left heq⟩
    next hd => exact absurd (List.cons.inj heq).1.symm hd
  next hc =>
    split at heq
    next hd => exact absurd (List.cons.inj heq).1 hc
    next hd => exact List.cons.inj heq

theorem PrefixFree.indent {α : Type} {written : α → List Char} (h : PrefixFree written) :
    PrefixFree fun a => Indented.indent (written a) :=
  (h.flatMap indentChar_prefixFree).after Indented.margin

/-! ### Records -/

namespace Record

/-- What two forms for records have to ensure: after the same front, the one goes on with a quote
and the other with a bracket. -/
structure AreForms (front : List Char) (quoted : List Char → String) (listed : Bytes → String) :
    Prop where
  quoted_prefixFree : PrefixFree fun text => (quoted text).toList
  listed_prefixFree : PrefixFree fun bytes => (listed bytes).toList
  quoted_opens : ∀ text, ∃ more, (quoted text).toList = front ++ '"' :: more
  listed_opens : ∀ bytes, ∃ more, (listed bytes).toList = front ++ '[' :: more

/-- The text of a record, or its bytes if they are no text. -/
def textOrBytes (r : Record) : List Char ⊕ Bytes :=
  match Utf8.decode? r.bytes with
  | some text => .inl text
  | none => .inr r.bytes

theorem encode_textOrBytes (r : Record) : Sum.elim Utf8.encode id r.textOrBytes = r.bytes := by
  unfold textOrBytes
  cases hdecode : Utf8.decode? r.bytes with
  | some text => exact (Utf8.decode?_eq_some_iff.1 hdecode).symm
  | none => rfl

theorem textOrBytes_injective : Function.Injective textOrBytes := by
  intro r s h
  have hbytes := congrArg (Sum.elim Utf8.encode id) h
  rw [encode_textOrBytes, encode_textOrBytes] at hbytes
  rw [← ofBytes_bytes r, hbytes, ofBytes_bytes]

section ShownBy

variable {front : List Char} {quoted : List Char → String} {listed : Bytes → String}

/-- No text starts with a form of either kind. -/
theorem AreForms.disjoint (h : AreForms front quoted listed) (text : List Char) (bytes : Bytes)
    (rest rest' : List Char) : (quoted text).toList ++ rest ≠ (listed bytes).toList ++ rest' := by
  obtain ⟨more, hmore⟩ := h.quoted_opens text
  obtain ⟨more', hmore'⟩ := h.listed_opens bytes
  intro heq
  rw [hmore, hmore', List.append_assoc, List.append_assoc] at heq
  cases List.append_cancel_left heq

theorem toList_shownBy (r : Record) : (shownBy quoted listed r).toList =
    Sum.elim (fun text => (quoted text).toList) (fun bytes => (listed bytes).toList)
      r.textOrBytes := by
  unfold shownBy textOrBytes
  cases Utf8.decode? r.bytes <;> rfl

theorem AreForms.prefixFree (h : AreForms front quoted listed) :
    PrefixFree fun r => (shownBy quoted listed r).toList := by
  simp only [toList_shownBy]
  exact (h.quoted_prefixFree.sum h.listed_prefixFree h.disjoint).comp textOrBytes_injective

theorem AreForms.opens (h : AreForms front quoted listed) (r : Record) :
    ∃ more, (shownBy quoted listed r).toList = front ++ more := by
  unfold shownBy
  cases Utf8.decode? r.bytes with
  | some text =>
    obtain ⟨more, hmore⟩ := h.quoted_opens text
    exact ⟨_, hmore⟩
  | none =>
    obtain ⟨more, hmore⟩ := h.listed_opens r.bytes
    exact ⟨_, hmore⟩

theorem shownBy_encode (text : List Char) :
    shownBy quoted listed (.ofBytes (Utf8.encode text)) = quoted text := by
  rw [shownBy, bytes_ofBytes, Utf8.decode?_encode]

theorem shownBy_of_ne_encode {bytes : Bytes} (h : ∀ text, bytes ≠ Utf8.encode text) :
    shownBy quoted listed (.ofBytes bytes) = listed bytes := by
  rw [shownBy, bytes_ofBytes, Utf8.decode?_eq_none_iff.2 h]

end ShownBy

variable {quote : List Char → List Char}

theorem toList_quotedBetween (front back : String) (text : List Char) :
    (quotedBetween front back quote text).toList = front.toList ++ quote text ++ back.toList := by
  simp only [quotedBetween, String.toList_append, String.toList_ofList]

theorem toList_listedForm (bytes : Bytes) : (listedForm bytes).toList = "Record([".toList ++
    (", ".toList.intercalate (bytes.map fun b => Nat.toDigits 10 b.toNat) ++ "])".toList) := by
  simp only [listedForm, String.toList_append, String.toList_intercalate, List.map_map,
    List.append_assoc, Function.comp_def, Nat.toString_eq_repr, Nat.toList_repr]

theorem toList_byteLine (b : UInt8) : (byteLine b).toList =
    "        ".toList ++ Nat.toDigits 10 b.toNat ++ ",\n".toList := by
  simp only [byteLine, String.toList_append, Nat.toString_eq_repr, Nat.toList_repr]

theorem toList_listedLines (bytes : Bytes) : (listedLines bytes).toList =
    "Record(\n    [\n".toList ++
      (bytes.flatMap (fun b => (byteLine b).toList) ++ "    ],\n)".toList) := by
  simp only [listedLines, String.toList_append, String.toList_join, List.flatMap_map,
    List.append_assoc]

theorem listedForm_prefixFree : PrefixFree fun bytes => (listedForm bytes).toList := by
  -- A number ends where the separator or the end of the list begins.
  have hcomma : ∀ rest, StopsAt (IsDigitOf 10) (", ".toList ++ rest) := by
    simpa using fun rest => stopsAt_cons (not_isDigitOf_ten rfl) (' ' :: rest)
  have hbracket : ∀ rest, StopsAt (IsDigitOf 10) ("])".toList ++ rest) := by
    simpa using fun rest => stopsAt_cons (not_isDigitOf_ten rfl) (')' :: rest)
  simp only [toList_listedForm]
  refine (splitsOff_byte.separated hcomma hbracket (fun b rest rest' => ?_) ?_).after _
  · simpa using toDigits_append_ne (by decide) (not_isDigitOf_ten (c := ']') rfl) _ _ _
  · simp

theorem byteLine_prefixFree : PrefixFree fun b => (byteLine b).toList := by
  have hcomma : ∀ rest, StopsAt (IsDigitOf 10) (",\n".toList ++ rest) := by
    simpa using fun rest => stopsAt_cons (not_isDigitOf_ten rfl) ('\n' :: rest)
  simp only [toList_byteLine]
  exact (splitsOff_byte.after _).before _ hcomma

theorem listedLines_prefixFree : PrefixFree fun bytes => (listedLines bytes).toList := by
  simp only [toList_listedLines]
  refine (byteLine_prefixFree.sequence fun b rest rest' => ?_).after _
  simp [toList_byteLine]

/-- Any prefix-free way to list bytes goes together with a quoted text. -/
theorem areForms (h : Quoted.IsQuoting quote) {listed : Bytes → String}
    (hlisted : PrefixFree fun bytes => (listed bytes).toList) {front back : String}
    (hopens : ∀ bytes, ∃ more, (listed bytes).toList = front.toList ++ '[' :: more) :
    AreForms front.toList (quotedBetween front back quote) listed where
  quoted_prefixFree := by
    simp only [toList_quotedBetween]
    exact (h.prefixFree.after _).before _
  listed_prefixFree := hlisted
  quoted_opens := by
    intro text
    obtain ⟨more, hmore⟩ := h.opens text
    exact ⟨more ++ back.toList, by rw [toList_quotedBetween, hmore, List.append_assoc]; rfl⟩
  listed_opens := hopens

theorem areForms_oneLine (h : Quoted.IsQuoting quote) :
    AreForms "Record(".toList (quotedForm quote) listedForm :=
  areForms h listedForm_prefixFree fun bytes => ⟨_, by rw [toList_listedForm]; rfl⟩

theorem areForms_lines (h : Quoted.IsQuoting quote) :
    AreForms "Record(\n    ".toList (quotedLines quote) listedLines :=
  areForms h listedLines_prefixFree fun bytes => ⟨_, by rw [toList_listedLines]; rfl⟩

end Record

/-! ### Assemblies -/

namespace Assembly

theorem toList_listForm (records : List Record) (record : Record → String) :
    (listForm (records.map record)).toList = "Complete([".toList ++
      (", ".toList.intercalate (records.map fun r => (record r).toList) ++ "])".toList) := by
  rw [listForm, String.toList_append, String.toList_append, String.toList_intercalate,
    List.map_map, List.append_assoc]
  rfl

theorem listForm_injective {record : Record → String}
    (h : PrefixFree fun r => (record r).toList)
    (hopens : ∀ r, ∃ more, (record r).toList = "Record(".toList ++ more) :
    Function.Injective fun records : List Record => listForm (records.map record) := by
  have hlist : PrefixFree fun records : List Record => (listForm (records.map record)).toList := by
    simp only [toList_listForm]
    refine (h.separated (fun r rest rest' => ?_) fun rest rest' => ?_).after _
    · obtain ⟨more, hmore⟩ := hopens r
      simp [hmore]
    · simp
  intro records records' heq
  exact hlist.injective (congrArg String.toList heq)

theorem toList_itemLines (record : String) : (itemLines record).toList =
    Indented.indent (Indented.indent record.toList) ++ ",\n".toList := by
  rw [itemLines, String.toList_append, String.toList_ofList (l := Indented.indent _)]

theorem toList_listLines_cons (record : Record → String) (r : Record) (records : List Record) :
    (listLines ((r :: records).map record)).toList = "Complete(\n    [\n".toList ++
      ((r :: records).flatMap (fun r => (itemLines (record r)).toList) ++
        "    ],\n)".toList) := by
  simp only [List.map_cons, listLines, String.toList_append, String.toList_join, List.flatMap_cons,
    List.flatMap_map, List.append_assoc]

theorem listLines_injective {record : Record → String}
    (h : PrefixFree fun r => (record r).toList) :
    Function.Injective fun records : List Record => listLines (records.map record) := by
  have hitems : PrefixFree fun records : List Record =>
      records.flatMap (fun r => (itemLines (record r)).toList) ++ "    ],\n)".toList := by
    simp only [toList_itemLines]
    refine (h.indent.indent.before _).sequence fun r rest rest' => ?_
    -- An item starts further right than the bracket that closes the list.
    simp [Indented.indent, Indented.margin, Indented.indentChar, List.replicate]
  intro records records' heq
  have htext := congrArg String.toList heq
  cases records with
  | nil =>
    cases records' with
    | nil => rfl
    | cons r records' => simp [listLines] at htext
  | cons r records =>
    cases records' with
    | nil => simp [listLines] at htext
    | cons r' records' =>
      rw [toList_listLines_cons, toList_listLines_cons] at htext
      exact hitems.injective (List.append_cancel_left htext)

/-- Assemblies are told apart if lists of records are, and none of these is shown like an
incomplete assembly. -/
theorem shownBy_injective {listed : List String → String} {record : Record → String}
    (h : Function.Injective fun records : List Record => listed (records.map record))
    (hopens : ∀ records, ∃ more, (listed records).toList = 'C' :: more) :
    Function.Injective (shownBy listed record) := by
  have hne : ∀ records, "Incomplete" ≠ listed records := by
    intro records heq
    obtain ⟨more, hmore⟩ := hopens records
    have htext := congrArg String.toList heq
    rw [hmore] at htext
    simp at htext
  intro x y heq
  cases x with
  | incomplete =>
    cases y with
    | incomplete => rfl
    | complete records => exact absurd heq (hne _)
  | complete records =>
    cases y with
    | incomplete => exact absurd heq.symm (hne _)
    | complete records' => rw [h heq]

theorem listForm_opens (records : List String) :
    ∃ more, (listForm records).toList = 'C' :: more := by
  simp [listForm]

theorem listLines_opens (records : List String) :
    ∃ more, (listLines records).toList = 'C' :: more := by
  cases records <;> simp [listLines]

end Assembly

/-! ### All texts -/

/-- A way to show records, in one form for texts and one for other bytes, and to show assemblies of
them, by which all are told apart. -/
structure TellsApart (quoted : List Char → String) (listed : Bytes → String)
    (record : Record → String) (assembly : Assembly → String) : Prop where
  record_encode : ∀ text, record (.ofBytes (Utf8.encode text)) = quoted text
  record_of_ne_encode : ∀ bytes : Bytes, (∀ text, bytes ≠ Utf8.encode text) →
    record (.ofBytes bytes) = listed bytes
  quoted_injective : Function.Injective quoted
  listed_injective : Function.Injective listed
  quoted_ne_listed : ∀ text bytes, quoted text ≠ listed bytes
  record_eq_iff : ∀ a b : Bytes, record (.ofBytes a) = record (.ofBytes b) ↔ a = b
  assembly_eq_iff : ∀ x y, assembly x = assembly y ↔ x = y

/-- Two forms for records tell all records apart, and all assemblies if the lists of records shown
in them are told apart. -/
theorem Record.AreForms.tellsApart {front : List Char} {quoted : List Char → String}
    {listed : Bytes → String} (h : Record.AreForms front quoted listed)
    {list : List String → String}
    (hlist : Function.Injective fun records : List Record =>
      list (records.map (Record.shownBy quoted listed)))
    (hopens : ∀ records, ∃ more, (list records).toList = 'C' :: more) :
    TellsApart quoted listed (Record.shownBy quoted listed)
      (Assembly.shownBy list (Record.shownBy quoted listed)) where
  record_encode := Record.shownBy_encode
  record_of_ne_encode := fun _ => Record.shownBy_of_ne_encode
  quoted_injective := fun _ _ heq => h.quoted_prefixFree.injective (congrArg String.toList heq)
  listed_injective := fun _ _ heq => h.listed_prefixFree.injective (congrArg String.toList heq)
  quoted_ne_listed := by
    intro text bytes heq
    exact h.disjoint text bytes [] [] (by rw [heq])
  record_eq_iff := by
    intro a b
    refine ⟨fun heq => ?_, fun heq => by rw [heq]⟩
    exact congrArg Record.bytes (h.prefixFree.injective (congrArg String.toList heq))
  assembly_eq_iff := fun _ _ => (Assembly.shownBy_injective hlist hopens).eq_iff

section Quoting

variable {quote : List Char → List Char}

theorem displayWith_tellsApart (h : Quoted.IsQuoting quote) :
    TellsApart (Record.quotedForm quote) Record.listedForm
      (Record.displayWith quote) (Assembly.displayWith quote) :=
  have hforms := Record.areForms_oneLine h
  hforms.tellsApart (Assembly.listForm_injective hforms.prefixFree hforms.opens)
    Assembly.listForm_opens

theorem displayLinesWith_tellsApart (h : Quoted.IsQuoting quote) :
    TellsApart (Record.quotedLines quote) Record.listedLines
      (Record.displayLinesWith quote) (Assembly.displayLinesWith quote) :=
  have hforms := Record.areForms_lines h
  hforms.tellsApart (Assembly.listLines_injective hforms.prefixFree) Assembly.listLines_opens

end Quoting

/-- The display forms of records and assemblies, on one line and over several, tell them apart. They
would do so whatever characters were given by their code point. -/
theorem display_tellsApart :
    TellsApart (Record.quotedForm Quoted.quote) Record.listedForm
      Record.display Assembly.display ∧
    TellsApart (Record.quotedLines Quoted.quote) Record.listedLines
      Record.displayLines Assembly.displayLines ∧
    ∀ hidden : Char → Bool,
      TellsApart (Record.quotedForm (Quoted.quoteHiding hidden)) Record.listedForm
        (Record.displayWith (Quoted.quoteHiding hidden))
        (Assembly.displayWith (Quoted.quoteHiding hidden)) ∧
      TellsApart (Record.quotedLines (Quoted.quoteHiding hidden)) Record.listedLines
        (Record.displayLinesWith (Quoted.quoteHiding hidden))
        (Assembly.displayLinesWith (Quoted.quoteHiding hidden)) := by
  have hquoting : Quoted.IsQuoting Quoted.quote := by
    rw [Quoted.quote_eq]
    exact Quoted.isQuoting_quoteHiding isGlyphless
  rw [Assembly.display_eq, Assembly.displayLines_eq, Record.display_eq, Record.displayLines_eq]
  exact ⟨displayWith_tellsApart hquoting, displayLinesWith_tellsApart hquoting, fun hidden =>
    ⟨displayWith_tellsApart (Quoted.isQuoting_quoteHiding hidden),
      displayLinesWith_tellsApart (Quoted.isQuoting_quoteHiding hidden)⟩⟩

/-- A text may hold what looks like the end of one record and the start of the next. -/
example :
    let record (text : String) : Record := .ofBytes (Utf8.encode text.toList)
    (Assembly.complete [record "a\"), Record(\"b"]).display =
        "Complete([Record(\"a\\\"), Record(\\\"b\")])" ∧
      (Assembly.complete [record "a", record "b"]).display =
        "Complete([Record(\"a\"), Record(\"b\")])" := by
  decide +kernel

end Scrollback
