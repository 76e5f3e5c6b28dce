import Sketchbook.Proofs.Text.Lines
import Sketchbook.Snapshot.Writer

/-! The texts that stand for a source unit. A unit is written in one way but may be spelled in
many: with its fields in any order, with fields of other names among them, with padding between
the tokens, and with every escape of a character. -/
namespace Sketchbook.Snapshot
open Text

abbrev Spelling := List Char → Prop

def IsPadding (cs : List Char) : Prop := ∀ c ∈ cs, c = ' ' ∨ c = '\t'

instance (cs : List Char) : Decidable (IsPadding cs) :=
  List.decidableBAll (fun c : Char => c = ' ' ∨ c = '\t') cs

inductive Padded (spelling : Spelling) : Spelling where
  | behind {pad cs : List Char} (hpad : IsPadding pad) (hcs : spelling cs) :
      Padded spelling (pad ++ cs)

/-! ### Strings and numbers -/

def IsHexDigit (n : Nat) (c : Char) : Prop :=
  n < 16 ∧ (c = hexDigit n ∨ c = (hexDigit n).toUpper)

instance (n : Nat) (c : Char) : Decidable (IsHexDigit n c) :=
  inferInstanceAs (Decidable (_ ∧ _))

inductive SpellsNumber : Nat → Spelling where
  | digits {n₁ n₂ n₃ n₄ : Nat} {c₁ c₂ c₃ c₄ : Char} (h₁ : IsHexDigit n₁ c₁)
      (h₂ : IsHexDigit n₂ c₂) (h₃ : IsHexDigit n₃ c₃) (h₄ : IsHexDigit n₄ c₄) :
      SpellsNumber (((n₁ * 16 + n₂) * 16 + n₃) * 16 + n₄) [c₁, c₂, c₃, c₄]

def shortForms : List (Char × Char) :=
  [('"', '"'), ('\\', '\\'), ('/', '/'), ('b', '\x08'), ('f', '\x0c'), ('n', '\n'), ('r', '\r'),
    ('t', '\t')]

/-- A character of a string stands for itself, behind a backslash as a letter or as its number, or,
beyond U+FFFF, as the numbers of its two surrogates. -/
inductive SpellsChar : Char → Spelling where
  | plain {c : Char} (hquote : c ≠ '"') (hbackslash : c ≠ '\\') (hcontrol : 0x20 ≤ c.toNat) :
      SpellsChar c [c]
  | short {c letter : Char} (hletter : (letter, c) ∈ shortForms) : SpellsChar c ['\\', letter]
  | number {c : Char} {digits : List Char} (hdigits : SpellsNumber c.toNat digits) :
      SpellsChar c ('\\' :: 'u' :: digits)
  | surrogates {c : Char} {high low : List Char} (hbeyond : 0x10000 ≤ c.toNat)
      (hhigh : SpellsNumber (0xD800 + (c.toNat - 0x10000) / 0x400) high)
      (hlow : SpellsNumber (0xDC00 + (c.toNat - 0x10000) % 0x400) low) :
      SpellsChar c ('\\' :: 'u' :: (high ++ '\\' :: 'u' :: low))

inductive SpellsBody : List Char → Spelling where
  | nil : SpellsBody [] []
  | cons {c : Char} {cs part more : List Char} (hpart : SpellsChar c part)
      (hmore : SpellsBody cs more) : SpellsBody (c :: cs) (part ++ more)

inductive SpellsText (s : String) : Spelling where
  | quoted {body : List Char} (hbody : SpellsBody s.toList body) :
      SpellsText s ('"' :: (body ++ ['"']))

def SpellsLine (line : LineNumber) : Spelling := (· = Nat.toDigits 10 line.toNat)

/-! ### Lists and objects -/

inductive SpellsAll : List Spelling → List (List Char) → Prop where
  | nil : SpellsAll [] []
  | cons {entry : Spelling} {entries : List Spelling} {cs : List Char} {texts : List (List Char)}
      (hentry : entry cs) (hmore : SpellsAll entries texts) :
      SpellsAll (entry :: entries) (cs :: texts)

inductive SpellsFurther : List Spelling → Spelling where
  | nil {pad : List Char} (hpad : IsPadding pad) : SpellsFurther [] pad
  | cons {entry : Spelling} {entries : List Spelling} {pad cs more : List Char}
      (hpad : IsPadding pad) (hentry : Padded entry cs) (hmore : SpellsFurther entries more) :
      SpellsFurther (entry :: entries) (pad ++ ',' :: (cs ++ more))

inductive SpellsEntries : List Spelling → Spelling where
  | nil {pad : List Char} (hpad : IsPadding pad) : SpellsEntries [] pad
  | cons {entry : Spelling} {entries : List Spelling} {cs more : List Char}
      (hentry : Padded entry cs) (hmore : SpellsFurther entries more) :
      SpellsEntries (entry :: entries) (cs ++ more)

inductive SpellsList (items : List Spelling) : Spelling where
  | brackets {inner : List Char} (hinner : SpellsEntries items inner) :
      SpellsList items ('[' :: (inner ++ [']']))

inductive Value where
  | text (s : String)
  | line (number : LineNumber)
  | list (items : List Spelling)

def Value.Spells : Value → Spelling
  | .text s => SpellsText s
  | .line number => SpellsLine number
  | .list items => SpellsList items

structure Field where
  key : String
  value : Value

inductive Field.Spells (field : Field) : Spelling where
  | pair {key pad value : List Char} (hkey : SpellsText field.key key) (hpad : IsPadding pad)
      (hvalue : Padded field.value.Spells value) :
      Field.Spells field (key ++ (pad ++ ':' :: value))

def fieldNames : List String :=
  ["file", "declarations", "includes", "macros", "kind", "literal", "raw", "line", "start_line",
    "end_line", "containing_file"]

def Field.IsExtra (field : Field) : Prop := field.key ∉ fieldNames ∧ ∃ s, field.value = .text s

/-- An object has its own fields and any extra ones, in any order. -/
inductive SpellsObject (own : List Field) : Spelling where
  | braces {extras fields : List Field} {inner : List Char} (hextras : ∀ f ∈ extras, f.IsExtra)
      (hfields : fields.Perm (own ++ extras))
      (hinner : SpellsEntries (fields.map Field.Spells) inner) :
      SpellsObject own ('\x7b' :: (inner ++ ['\x7d']))

/-! ### Units -/

def directiveFields (directive : Directive) : List Field :=
  [⟨"raw", .text directive.raw⟩, ⟨"line", .line directive.line⟩]

def SpellsDirective (directive : Directive) : Spelling := SpellsObject (directiveFields directive)

def kindFields : DeclarationKind → List Field
  | .functionDefinition => [⟨"kind", .text "function_definition"⟩]
  | .linkageSpecification literal =>
    [⟨"kind", .text "linkage_specification"⟩, ⟨"literal", .text literal⟩]
  | .other => [⟨"kind", .text "other"⟩]

def declarationFields (declaration : Declaration) : List Field :=
  kindFields declaration.kind ++
    [⟨"raw", .text declaration.raw⟩,
     ⟨"start_line", .line declaration.startLine⟩,
     ⟨"end_line", .line declaration.endLine⟩,
     ⟨"containing_file", .text declaration.containingFile⟩]

def SpellsDeclaration (declaration : Declaration) : Spelling :=
  SpellsObject (declarationFields declaration)

inductive ListField (key : String) : List Spelling → List Field → Prop where
  | written (items : List Spelling) : ListField key items [⟨key, .list items⟩]
  | omitted : ListField key [] []

inductive UnitFieldList (unit : SourceUnit) : List Field → Prop where
  | fields {declarations includes macros : List Field}
      (hdeclarations :
        ListField "declarations" (unit.declarations.map SpellsDeclaration) declarations)
      (hincludes : ListField "includes" (unit.includes.map SpellsDirective) includes)
      (hmacros : ListField "macros" (unit.macros.map SpellsDirective) macros) :
      UnitFieldList unit (⟨"file", .text unit.file⟩ :: (declarations ++ (includes ++ macros)))

inductive SpellsUnit (unit : SourceUnit) : Spelling where
  | object {fields : List Field} {cs : List Char} (hfields : UnitFieldList unit fields)
      (hobject : SpellsObject fields cs) : SpellsUnit unit cs

inductive SpellsRecord (unit : SourceUnit) : Spelling where
  | padded {cs pad : List Char} (hunit : Padded (SpellsUnit unit) cs) (hpad : IsPadding pad) :
      SpellsRecord unit (cs ++ pad)

/-! ### Line breaks -/

def OnOneLine (spelling : Spelling) : Prop := ∀ cs, spelling cs → NoBreak cs

theorem IsPadding.noBreak {cs : List Char} (h : IsPadding cs) : NoBreak cs := by
  intro c hc
  rcases h c hc with rfl | rfl <;> decide

theorem OnOneLine.padded {spelling : Spelling} (h : OnOneLine spelling) :
    OnOneLine (Padded spelling) := by
  rintro _ ⟨hpad, hcs⟩
  exact hpad.noBreak.append (h _ hcs)

theorem noBreak_hexDigit :
    ∀ n, n < 16 → NoBreak [hexDigit n] ∧ NoBreak [(hexDigit n).toUpper] := by decide

theorem IsHexDigit.noBreak {n : Nat} {c : Char} (h : IsHexDigit n c) : NoBreak [c] := by
  obtain ⟨hn, rfl | rfl⟩ := h
  · exact (noBreak_hexDigit n hn).1
  · exact (noBreak_hexDigit n hn).2

theorem SpellsNumber.noBreak {n : Nat} {cs : List Char} (h : SpellsNumber n cs) : NoBreak cs := by
  obtain ⟨h₁, h₂, h₃, h₄⟩ := h
  exact h₁.noBreak.append (h₂.noBreak.append (h₃.noBreak.append h₄.noBreak))

theorem noBreak_shortForms : ∀ form ∈ shortForms, NoBreak [form.1] := by decide

theorem SpellsChar.noBreak {c : Char} {cs : List Char} (h : SpellsChar c cs) : NoBreak cs := by
  cases h with
  | plain _ _ hcontrol =>
    refine .cons ⟨?_, ?_⟩ nofun <;> rintro rfl <;> revert hcontrol <;> decide
  | short hletter => exact .cons (by decide) (noBreak_shortForms _ hletter)
  | number hdigits => exact .cons (by decide) (.cons (by decide) hdigits.noBreak)
  | surrogates _ hhigh hlow =>
    refine .cons (by decide) (.cons (by decide) (hhigh.noBreak.append ?_))
    exact .cons (by decide) (.cons (by decide) hlow.noBreak)

theorem SpellsBody.noBreak {cs body : List Char} (h : SpellsBody cs body) : NoBreak body := by
  induction h with
  | nil => nofun
  | cons hpart _ ih => exact hpart.noBreak.append ih

theorem onOneLine_text (s : String) : OnOneLine (SpellsText s) := by
  rintro _ ⟨hbody⟩
  exact .cons (by decide) (hbody.noBreak.append (by decide))

theorem onOneLine_line (line : LineNumber) : OnOneLine (SpellsLine line) := by
  rintro _ rfl c hc
  have hdigit := Nat.isDigit_of_mem_toDigits (by decide) (by decide) hc
  constructor <;> rintro rfl <;> revert hdigit <;> decide

theorem SpellsFurther.noBreak {entries : List Spelling} {cs : List Char}
    (hentries : ∀ entry ∈ entries, OnOneLine entry) (h : SpellsFurther entries cs) :
    NoBreak cs := by
  induction h with
  | nil hpad => exact hpad.noBreak
  | cons hpad hentry _ ih =>
    obtain ⟨hfirst, hmore⟩ := List.forall_mem_cons.mp hentries
    exact hpad.noBreak.append (.cons (by decide) ((hfirst.padded _ hentry).append (ih hmore)))

theorem SpellsEntries.noBreak {entries : List Spelling} {cs : List Char}
    (hentries : ∀ entry ∈ entries, OnOneLine entry) (h : SpellsEntries entries cs) :
    NoBreak cs := by
  cases h with
  | nil hpad => exact hpad.noBreak
  | cons hentry hfurther =>
    obtain ⟨hfirst, hmore⟩ := List.forall_mem_cons.mp hentries
    exact (hfirst.padded _ hentry).append (hfurther.noBreak hmore)

theorem onOneLine_list {α : Type} {spells : α → Spelling} (h : ∀ a, OnOneLine (spells a))
    (items : List α) : OnOneLine (SpellsList (items.map spells)) := by
  rintro _ ⟨hinner⟩
  have hitems : ∀ entry ∈ items.map spells, OnOneLine entry := by
    intro entry hentry
    obtain ⟨a, -, rfl⟩ := List.mem_map.mp hentry
    exact h a
  exact .cons (by decide) ((hinner.noBreak hitems).append (by decide))

theorem onOneLine_field {field : Field} (h : OnOneLine field.value.Spells) :
    OnOneLine field.Spells := by
  rintro _ ⟨hkey, hpad, hvalue⟩
  refine (onOneLine_text field.key _ hkey).append (hpad.noBreak.append ?_)
  exact .cons (by decide) (h.padded _ hvalue)

theorem onOneLine_object {own : List Field} (h : ∀ f ∈ own, OnOneLine f.value.Spells) :
    OnOneLine (SpellsObject own) := by
  rintro _ ⟨hextras, hfields, hinner⟩
  refine .cons (by decide) ((hinner.noBreak fun entry hentry => ?_).append (by decide))
  obtain ⟨f, hf, rfl⟩ := List.mem_map.mp hentry
  rcases List.mem_append.mp (hfields.mem_iff.mp hf) with hown | hextra
  · exact onOneLine_field (h f hown)
  · obtain ⟨-, s, hvalue⟩ := hextras f hextra
    refine onOneLine_field ?_
    rw [hvalue]
    exact onOneLine_text s

theorem onOneLine_directive (d : Directive) : OnOneLine (SpellsDirective d) :=
  onOneLine_object <| by
    simp [directiveFields, Value.Spells, onOneLine_text, onOneLine_line]

theorem onOneLine_declaration (d : Declaration) : OnOneLine (SpellsDeclaration d) :=
  onOneLine_object <| by
    cases hkind : d.kind <;>
      simp [declarationFields, kindFields, hkind, Value.Spells, onOneLine_text, onOneLine_line]

theorem ListField.eq_of_mem {key : String} {items : List Spelling} {fields : List Field}
    (h : ListField key items fields) {field : Field} (hfield : field ∈ fields) :
    field = ⟨key, .list items⟩ := by
  cases h with
  | written => exact List.mem_singleton.mp hfield
  | omitted => cases hfield

theorem UnitFieldList.eq_of_mem {u : SourceUnit} {fields : List Field}
    (h : UnitFieldList u fields) {field : Field} (hfield : field ∈ fields) :
    field = ⟨"file", .text u.file⟩ ∨
    field = ⟨"declarations", .list (u.declarations.map SpellsDeclaration)⟩ ∨
    field = ⟨"includes", .list (u.includes.map SpellsDirective)⟩ ∨
    field = ⟨"macros", .list (u.macros.map SpellsDirective)⟩ := by
  obtain ⟨hdeclarations, hincludes, hmacros⟩ := h
  simp only [List.mem_cons, List.mem_append] at hfield
  exact hfield.imp_right <| Or.imp hdeclarations.eq_of_mem <|
    Or.imp hincludes.eq_of_mem hmacros.eq_of_mem

theorem onOneLine_unit (u : SourceUnit) : OnOneLine (SpellsUnit u) := by
  rintro _ ⟨hfields, hobject⟩
  refine onOneLine_object (fun f hf => ?_) _ hobject
  rcases hfields.eq_of_mem hf with rfl | rfl | rfl | rfl
  · exact onOneLine_text u.file
  · exact onOneLine_list onOneLine_declaration u.declarations
  · exact onOneLine_list onOneLine_directive u.includes
  · exact onOneLine_list onOneLine_directive u.macros

theorem onOneLine_record (u : SourceUnit) : OnOneLine (SpellsRecord u) := by
  rintro _ ⟨hunit, hpad⟩
  exact ((onOneLine_unit u).padded _ hunit).append hpad.noBreak

/-! ### What is written -/

theorem isPadding_nil : IsPadding [] := nofun

theorem padded_of_spells {spelling : Spelling} {cs : List Char} (h : spelling cs) :
    Padded spelling cs :=
  .behind isPadding_nil h

theorem isHexDigit_hexDigit {n : Nat} (h : n < 16) : IsHexDigit n (hexDigit n) := ⟨h, .inl rfl⟩

theorem spellsChar_escapedChar (c : Char) : SpellsChar c (escapedChar c) := by
  unfold escapedChar
  -- the characters with a short form of their own
  iterate 7
    split
    · next h => exact .short (by rw [h]; decide)
  split
  · next hcontrol =>
    have hzero := isHexDigit_hexDigit (n := 0) (by decide)
    have hdigits := SpellsNumber.digits hzero hzero
      (isHexDigit_hexDigit (n := c.toNat / 16) (by omega))
      (isHexDigit_hexDigit (n := c.toNat % 16) (by omega))
    have hvalue : ((0 * 16 + 0) * 16 + c.toNat / 16) * 16 + c.toNat % 16 = c.toNat := by omega
    rw [hvalue] at hdigits
    exact .number hdigits
  · next hquote hbackslash _ _ _ _ _ hcontrol =>
    exact .plain hquote hbackslash (Nat.le_of_not_lt hcontrol)

theorem spellsBody_flatMap (cs : List Char) : SpellsBody cs (cs.flatMap escapedChar) := by
  induction cs with
  | nil => exact .nil
  | cons c cs ih => exact .cons (spellsChar_escapedChar c) ih

theorem SpellsBody.append {cs ds part more : List Char} (h : SpellsBody cs part)
    (hmore : SpellsBody ds more) : SpellsBody (cs ++ ds) (part ++ more) := by
  induction h with
  | nil => exact hmore
  | cons hpart _ ih =>
    rw [List.append_assoc]
    exact .cons hpart ih

theorem spellsText_writeText (s : String) : SpellsText s (writeText s) :=
  .quoted (spellsBody_flatMap s.toList)

theorem SpellsAll.append {entries others : List Spelling} {texts more : List (List Char)}
    (h : SpellsAll entries texts) (hmore : SpellsAll others more) :
    SpellsAll (entries ++ others) (texts ++ more) := by
  induction h with
  | nil => exact hmore
  | cons hentry _ ih => exact .cons hentry ih

theorem SpellsAll.exists_of_mem {entries : List Spelling} {texts : List (List Char)}
    {cs : List Char} (h : SpellsAll entries texts) (hcs : cs ∈ texts) :
    ∃ entry ∈ entries, entry cs := by
  induction h with
  | nil => cases hcs
  | cons hentry _ ih =>
    rcases List.mem_cons.mp hcs with rfl | hcs
    · exact ⟨_, List.mem_cons_self, hentry⟩
    · obtain ⟨entry, hmem, hspells⟩ := ih hcs
      exact ⟨entry, List.mem_cons_of_mem _ hmem, hspells⟩

theorem spellsAll_map {α : Type} {spells : α → Spelling} {write : α → List Char}
    (h : ∀ a, spells a (write a)) (items : List α) :
    SpellsAll (items.map spells) (items.map write) := by
  induction items with
  | nil => exact .nil
  | cons a more ih => exact .cons (h a) ih

theorem commaJoin_cons (part : List Char) (more : List (List Char)) :
    commaJoin (part :: more) = part ++ more.flatMap (',' :: ·) := by
  induction more generalizing part with
  | nil => simp [commaJoin]
  | cons next more ih =>
    have hjoin : commaJoin (part :: next :: more) = part ++ ',' :: commaJoin (next :: more) := rfl
    rw [hjoin, ih, List.flatMap_cons, List.cons_append]

theorem SpellsAll.further {entries : List Spelling} {texts : List (List Char)}
    (h : SpellsAll entries texts) : SpellsFurther entries (texts.flatMap (',' :: ·)) := by
  induction h with
  | nil => exact .nil isPadding_nil
  | cons hentry _ ih => exact .cons isPadding_nil (padded_of_spells hentry) ih

theorem SpellsAll.entries {entries : List Spelling} {texts : List (List Char)}
    (h : SpellsAll entries texts) : SpellsEntries entries (commaJoin texts) := by
  cases h with
  | nil => exact .nil isPadding_nil
  | cons hentry hmore =>
    rw [commaJoin_cons]
    exact .cons (padded_of_spells hentry) hmore.further

theorem spellsList_writeList {α : Type} {spells : α → Spelling} {write : α → List Char}
    (h : ∀ a, spells a (write a)) (items : List α) :
    SpellsList (items.map spells) (writeList (items.map write)) :=
  .brackets (spellsAll_map h items).entries

theorem spells_writeMember {field : Field} {value : List Char} (h : field.value.Spells value) :
    field.Spells (writeMember field.key value) :=
  .pair (spellsText_writeText field.key) isPadding_nil (padded_of_spells h)

theorem spells_textMember (key s : String) :
    Field.Spells ⟨key, .text s⟩ (writeMember key (writeText s)) :=
  spells_writeMember (spellsText_writeText s)

theorem spells_lineMember (key : String) (line : LineNumber) :
    Field.Spells ⟨key, .line line⟩ (writeMember key (writeLine line)) :=
  spells_writeMember rfl

/-- Fields that are written in their order spell an object. -/
theorem spellsObject_writeObject {fields : List Field} {members : List (List Char)}
    (h : SpellsAll (fields.map Field.Spells) members) :
    SpellsObject fields (writeObject members) := by
  have hextras : ∀ f ∈ ([] : List Field), f.IsExtra := nofun
  exact .braces hextras (by rw [List.append_nil]) h.entries

theorem spellsDirective_writeDirective (d : Directive) : SpellsDirective d (writeDirective d) :=
  spellsObject_writeObject <|
    .cons (spells_textMember "raw" d.raw) <| .cons (spells_lineMember "line" d.line) .nil

theorem spellsAll_kindMembers (kind : DeclarationKind) :
    SpellsAll ((kindFields kind).map Field.Spells) (kindMembers kind) := by
  cases kind with
  | functionDefinition => exact .cons (spells_textMember _ _) .nil
  | linkageSpecification literal =>
    exact .cons (spells_textMember _ _) (.cons (spells_textMember _ literal) .nil)
  | other => exact .cons (spells_textMember _ _) .nil

theorem spellsDeclaration_writeDeclaration (d : Declaration) :
    SpellsDeclaration d (writeDeclaration d) := by
  refine spellsObject_writeObject ?_
  rw [declarationFields, List.map_append]
  refine (spellsAll_kindMembers d.kind).append ?_
  exact .cons (spells_textMember "raw" d.raw) <|
    .cons (spells_lineMember "start_line" d.startLine) <|
    .cons (spells_lineMember "end_line" d.endLine) <|
    .cons (spells_textMember "containing_file" d.containingFile) .nil

theorem spellsUnit_writeUnit (u : SourceUnit) : SpellsUnit u (writeUnit u) := by
  refine .object (.fields (.written _) (.written _) (.written _)) (spellsObject_writeObject ?_)
  exact .cons (spells_textMember "file" u.file) <|
    .cons (spells_writeMember (spellsList_writeList spellsDeclaration_writeDeclaration _)) <|
    .cons (spells_writeMember (spellsList_writeList spellsDirective_writeDirective _)) <|
    .cons (spells_writeMember (spellsList_writeList spellsDirective_writeDirective _)) .nil

/-- What is written of a unit is one of its spellings. -/
theorem spellsRecord_writeRecord (u : SourceUnit) : SpellsRecord u (writeRecord u).toList := by
  have h := SpellsRecord.padded (padded_of_spells (spellsUnit_writeUnit u)) isPadding_nil
  simpa [writeRecord] using h

end Sketchbook.Snapshot
